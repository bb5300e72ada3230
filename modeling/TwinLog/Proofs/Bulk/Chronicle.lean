/-
  TwinLog.Proofs.Bulk.Chronicle — what the workers of a crew do, one motion after the other.

  A move of a worker that is not done is a `Motion`: it takes an item, finds the queue empty, begins to
  work, drops what it has taken because somebody has failed, does a piece of work, ends it, or
  raises the flag. `Makes` says what each of them makes of the crew, and all that follows is
  read off it.

  `Books` is the invariant of a run. An item is in the queue, or taken and not begun, or
  dropped, or begun, and that as often as it is in the list; what is begun is under way or
  ended. Items are dropped only where somebody has failed, and whoever fails is done with its
  error. `Sole` is the invariant of a single worker: behind it are the first items of
  the list, all ended without a failure.

  Items may be equal. Their positions are told apart by numbers that the work does not see
  (`Trade.numbered`), so that a run on numbered items is a run on the items (`plain_run`).

  - `each_worked_on_once`: for every list, any number of workers, any outcomes of the works and
    any order of the moves.
-/

import TwinLog.Proofs.Bulk.Crew

namespace TwinLog

inductive Motion (α ε : Type) where
  | takes (item : α)
  /-- Finds the queue empty, and is done. -/
  | retires
  | begins (item : α)
  /-- Sees the flag, and is done. -/
  | drops (item : α)
  | goesOn (item : α)
  | ends (item : α) (result : Except ε Unit)
  | raises (e : ε)

namespace Motion

variable {α ε : Type}

def begun? : Motion α ε → Option α
  | begins item => some item
  | _ => none

def dropped? : Motion α ε → Option α
  | drops item => some item
  | _ => none

def ended? : Motion α ε → Option (α × Except ε Unit)
  | ends item result => some (item, result)
  | _ => none

def isPiece : Motion α ε → Bool
  | goesOn _ => true
  | _ => false

end Motion

namespace Hand

variable {α τ ε : Type}

def held? : Hand α τ ε → Option α
  | holding item => some item
  | _ => none

def workedOn? : Hand α τ ε → Option α
  | working item _ => some item
  | _ => none

/-- A bound on the motions of a worker without the queue, unfinished pieces not counted. -/
def weight : Hand α τ ε → Nat
  | idle => 1
  | holding _ => 3
  | working .. => 2
  | quitting _ => 1
  | done _ => 0

def weights : List (Hand α τ ε) → Nat
  | [] => 0
  | h :: rest => h.weight + weights rest

theorem weights_replicate (n : Nat) : weights (List.replicate n (idle : Hand α τ ε)) = n := by
  induction n with
  | zero => rfl
  | succ n ih =>
    simp only [List.replicate_succ, weights, weight, ih]
    omega

end Hand

namespace Crew

variable {α τ ε σ κ : Type} {trade : Trade α τ ε σ κ} {c c' : Crew α τ ε σ} {i : Nat} {move : Nat × κ}
  {motion : Option (Motion α ε)} {told : List (Motion α ε)} {items : List α}

def motion? (trade : Trade α τ ε σ κ) (c : Crew α τ ε σ) (move : Nat × κ) : Option (Motion α ε) :=
  match c.hands[move.1]? with
  | some .idle => match c.queue with
    | [] => some .retires
    | item :: _ => some (.takes item)
  | some (.holding item) => some (if c.failed then .drops item else .begins item)
  | some (.working item task) => match (trade.step move.2 item task c.shared).1 with
    | .more _ => some (.goesOn item)
    | .ended result => some (.ends item result)
  | some (.quitting e) => some (.raises e)
  | _ => none

def motions (trade : Trade α τ ε σ κ) : Crew α τ ε σ → List (Nat × κ) → List (Motion α ε)
  | _, [] => []
  | c, move :: moves => (c.motion? trade move).toList ++ motions trade (c.step trade move) moves

/-- What a worker does to the queue, the flag and its own hand. -/
inductive Effect : List α → Bool → Hand α τ ε → Motion α ε → List α → Bool → Hand α τ ε → Prop
  | takes {item : α} {rest : List α} {failed : Bool} :
      Effect (item :: rest) failed .idle (.takes item) rest failed (.holding item)
  | retires {failed : Bool} : Effect [] failed .idle .retires [] failed (.done (.ok ()))
  | begins {item : α} {task : τ} {queue : List α} :
      Effect queue false (.holding item) (.begins item) queue false (.working item task)
  | drops {item : α} {queue : List α} : Effect queue true (.holding item) (.drops item) queue true (.done (.ok ()))
  | goesOn {item : α} {task task' : τ} {queue : List α} {failed : Bool} :
      Effect queue failed (.working item task) (.goesOn item) queue failed (.working item task')
  | finishes {item : α} {task : τ} {queue : List α} {failed : Bool} :
      Effect queue failed (.working item task) (.ends item (.ok ())) queue failed .idle
  | fails {item : α} {task : τ} {e : ε} {queue : List α} {failed : Bool} :
      Effect queue failed (.working item task) (.ends item (.error e)) queue failed (.quitting e)
  | raises {e : ε} {queue : List α} {failed : Bool} :
      Effect queue failed (.quitting e) (.raises e) queue true (.done (.error e))

/-- What a move of worker `i` is, and what it makes of the crew. -/
inductive Makes (c : Crew α τ ε σ) (i : Nat) : Option (Motion α ε) → Crew α τ ε σ → Prop
  | rests (finished : ∀ hand, c.hands[i]? = some hand → hand.isDone = true) : Makes c i none c
  | effect {old new : Hand α τ ε} {motion : Motion α ε} {queue : List α} {failed : Bool} {shared : σ}
      (hand : c.hands[i]? = some old) (effect : Effect c.queue c.failed old motion queue failed new) :
      Makes c i (some motion) ⟨queue, failed, c.hands.set i new, shared⟩

theorem step_makes (trade : Trade α τ ε σ κ) (c : Crew α τ ε σ) (move : Nat × κ) :
    c.Makes move.1 (c.motion? trade move) (c.step trade move) := by
  unfold motion? step
  cases hhand : c.hands[move.1]? with
  | none =>
    refine .rests ?_
    intro hand h
    cases hhand.symm.trans h
  | some hand =>
    cases hand with
    | idle =>
      cases hqueue : c.queue with
      | nil =>
        refine .effect hhand ?_
        rw [hqueue]
        exact .retires
      | cons item rest =>
        refine .effect hhand ?_
        rw [hqueue]
        exact .takes
    | holding item =>
      cases hfailed : c.failed with
      | true =>
        refine .effect hhand ?_
        rw [hfailed]
        exact .drops
      | false =>
        refine .effect hhand ?_
        rw [hfailed]
        exact .begins
    | working item task =>
      dsimp only
      cases hpiece : trade.step move.2 item task c.shared with
      | mk piece shared =>
        cases piece with
        | more task' => exact .effect hhand .goesOn
        | ended result =>
          cases result with
          | ok => exact .effect hhand .finishes
          | error e => exact .effect hhand .fails
    | quitting e => exact .effect hhand .raises
    | done result =>
      refine .rests ?_
      intro hand h
      cases hhand.symm.trans h
      rfl

theorem run_keeps {P : Crew α τ ε σ → List (Motion α ε) → Prop}
    (hmakes : ∀ {c c' : Crew α τ ε σ} {told i motion}, P c told → c.Makes i motion c' → P c' (told ++ motion.toList)) (h : P c told)
    (moves : List (Nat × κ)) : P (c.run trade moves) (told ++ c.motions trade moves) := by
  induction moves generalizing c told with
  | nil => simpa [run, motions] using h
  | cons move moves ih =>
    have hnext := ih (hmakes h (step_makes trade c move))
    rw [List.append_assoc] at hnext
    exact hnext

/-- A worker that is not done can move. -/
theorem motion_isSome {hand : Hand α τ ε} (hhand : c.hands[i]? = some hand) (hbusy : hand.isDone = false) (choice : κ) :
    (c.motion? trade (i, choice)).isSome = true := by
  have hmakes := step_makes trade c (i, choice)
  generalize c.motion? trade (i, choice) = motion, c.step trade (i, choice) = c' at hmakes
  cases hmakes with
  | rests finished => cases hbusy.symm.trans (finished hand hhand)
  | effect => rfl

/-! ## How long a run can be -/

def weight (c : Crew α τ ε σ) : Nat := 3 * c.queue.length + Hand.weights c.hands

theorem Effect.weight {queue queue' : List α} {failed failed' : Bool} {old new : Hand α τ ε} {motion : Motion α ε}
    (h : Effect queue failed old motion queue' failed' new) :
    3 * queue'.length + new.weight + [motion].countP (!·.isPiece) ≤ 3 * queue.length + old.weight := by
  cases h with
  | takes =>
    simp [Hand.weight, Motion.isPiece]
    omega
  | _ => simp [Hand.weight, Motion.isPiece]

/-- Every motion uses up some of what is left. -/
theorem weight_makes (h : c.Makes i motion c') : c'.weight + motion.toList.countP (!·.isPiece) ≤ c.weight := by
  cases h with
  | rests => simp
  | @effect old new motion queue failed shared hand effect =>
    have hset : Hand.weights (c.hands.set i new) + old.weight = Hand.weights c.hands + new.weight :=
      Pool.sum_set (fun _ _ => rfl) hand new
    have heffect := effect.weight
    simp only [weight, Option.toList_some]
    omega

/-- So there are only so many motions besides unfinished pieces. -/
theorem motions_weight (trade : Trade α τ ε σ κ) (c : Crew α τ ε σ) (moves : List (Nat × κ)) :
    (c.run trade moves).weight + (c.motions trade moves).countP (!·.isPiece) ≤ c.weight := by
  induction moves generalizing c with
  | nil => simp [run, motions]
  | cons move moves ih =>
    have hmakes := weight_makes (step_makes trade c move)
    have hrest := ih (c.step trade move)
    have hrun : c.run trade (move :: moves) = (c.step trade move).run trade moves := rfl
    rw [hrun, motions, List.countP_append]
    omega

theorem weight_start (threads : Nat) (items : List α) (s : σ) :
    (start threads items s : Crew α τ ε σ).weight = 3 * items.length + max threads 1 := by
  rw [weight, start, Hand.weights_replicate]

/-! ## The books -/

namespace Effect

variable {queue queue' : List α} {failed failed' : Bool} {old new : Hand α τ ε} {motion : Motion α ε}

theorem listed [DecidableEq α] (h : Effect queue failed old motion queue' failed' new) (x : α) :
    queue'.count x + new.held?.toList.count x + ([motion].filterMap Motion.dropped?).count x +
      ([motion].filterMap Motion.begun?).count x = queue.count x + old.held?.toList.count x := by
  cases h with
  | takes => simp [Hand.held?, Motion.dropped?, Motion.begun?, List.filterMap_cons, List.count_cons]
  | _ => simp [Hand.held?, Motion.dropped?, Motion.begun?, List.filterMap_cons]

theorem worked [DecidableEq α] (h : Effect queue failed old motion queue' failed' new) (x : α) :
    ([motion].filterMap Motion.begun?).count x + old.workedOn?.toList.count x =
      new.workedOn?.toList.count x + (([motion].filterMap Motion.ended?).map Prod.fst).count x := by
  cases h <;> simp [Hand.workedOn?, Motion.ended?, Motion.begun?, List.filterMap_cons]

theorem faults (h : Effect queue failed old motion queue' failed' new) (e : ε) :
    new.fault? = some e ↔ old.fault? = some e ∨ ∃ x, (x, .error e) ∈ [motion].filterMap Motion.ended? := by
  cases h <;> simp [Hand.fault?, Motion.ended?, List.filterMap_cons, eq_comm]

/-- The flag is raised by a worker whose work has failed, and stays. -/
theorem flagged (h : Effect queue failed old motion queue' failed' new) :
    (failed = true → failed' = true) ∧ (failed' = true → failed = true ∨ ∃ e, old.fault? = some e) := by
  cases h <;> simp [Hand.fault?]

theorem dropped (h : Effect queue failed old motion queue' failed' new) (hdrops : [motion].filterMap Motion.dropped? ≠ []) :
    failed = true := by
  revert hdrops
  cases h <;> simp [Motion.dropped?, List.filterMap_cons]

theorem exhausted (h : Effect queue failed old motion queue' failed' new) :
    (queue = [] → queue' = []) ∧ (new = .done (.ok ()) → queue' = [] ∨ failed' = true) := by
  cases h <;> simp

end Effect

section Books

variable [DecidableEq α]

/-- Where each item is, and what became of it. -/
structure Books (items : List α) (c : Crew α τ ε σ) (told : List (Motion α ε)) : Prop where
  listed : ∀ x, items.count x = c.queue.count x + (c.hands.filterMap Hand.held?).count x +
    (told.filterMap Motion.dropped?).count x + (told.filterMap Motion.begun?).count x
  worked : ∀ x, (told.filterMap Motion.begun?).count x = (c.hands.filterMap Hand.workedOn?).count x +
    ((told.filterMap Motion.ended?).map Prod.fst).count x
  faults : ∀ e, (∃ hand ∈ c.hands, hand.fault? = some e) ↔ ∃ x, (x, .error e) ∈ told.filterMap Motion.ended?
  flagged : c.failed = true → ∃ x e, (x, .error e) ∈ told.filterMap Motion.ended?
  dropped : told.filterMap Motion.dropped? ≠ [] → c.failed = true
  exhausted : .done (.ok ()) ∈ c.hands → c.queue = [] ∨ c.failed = true

theorem count_filterMap_set {β γ : Type} [DecidableEq γ] (f : β → Option γ) {l : List β} {i : Nat} {old : β}
    (h : l[i]? = some old) (new : β) (x : γ) :
    ((l.set i new).filterMap f).count x + (f old).toList.count x = (l.filterMap f).count x + (f new).toList.count x := by
  induction l generalizing i with
  | nil => cases h
  | cons b l ih =>
    have hcons (b : β) (l : List β) : ((b :: l).filterMap f).count x = (f b).toList.count x + (l.filterMap f).count x := by
      rw [List.filterMap_cons]
      cases f b with
      | none => simp
      | some y =>
        rw [Option.toList_some, ← List.count_append]
        rfl
    cases i with
    | zero =>
      cases h
      rw [List.set_cons_zero, hcons, hcons]
      omega
    | succ i =>
      have hrest := ih (by simpa using h)
      rw [List.set_cons_succ, hcons, hcons]
      omega

theorem Books.step (h : Books items c told) (hmakes : c.Makes i motion c') : Books items c' (told ++ motion.toList) := by
  cases hmakes with
  | rests => simpa using h
  | @effect old new motion queue failed shared hand effect =>
    have hself := mem_set_self hand new
    have hmem {y : Hand α τ ε} (hy : y ∈ c.hands) := mem_set_or hand hy new
    have hback {y : Hand α τ ε} (hy : y ∈ c.hands.set i new) : y ∈ c.hands ∨ y = new := List.mem_or_eq_of_mem_set hy
    have hold {e : ε} (he : old.fault? = some e) : ∃ x, (x, .error e) ∈ told.filterMap Motion.ended? :=
      (h.faults e).mp ⟨old, List.mem_of_getElem? hand, he⟩
    obtain ⟨hkeeps, hraised⟩ := effect.flagged
    obtain ⟨hempty, hdone⟩ := effect.exhausted
    rw [Option.toList_some]
    refine ⟨?_, ?_, ?_, ?_, ?_, ?_⟩
    · intro x
      have hlisted := h.listed x
      have heffect := effect.listed x
      have hset := count_filterMap_set Hand.held? hand new x
      simp only [List.filterMap_append, List.count_append]
      omega
    · intro x
      have hworked := h.worked x
      have heffect := effect.worked x
      have hset := count_filterMap_set Hand.workedOn? hand new x
      simp only [List.filterMap_append, List.count_append, List.map_append]
      omega
    · intro e
      simp only [List.filterMap_append, List.mem_append]
      -- the hand that moves keeps its fault, and gets one only from a work that ends
      constructor
      · intro hfault
        obtain ⟨y, hy, he⟩ := hfault
        rcases hback hy with hy | rfl
        · obtain ⟨x, hx⟩ := (h.faults e).mp ⟨y, hy, he⟩
          exact ⟨x, .inl hx⟩
        · rcases (effect.faults e).mp he with he | ⟨x, hx⟩
          · obtain ⟨x, hx⟩ := hold he
            exact ⟨x, .inl hx⟩
          · exact ⟨x, .inr hx⟩
      · intro hended
        obtain ⟨x, hx | hx⟩ := hended
        · obtain ⟨y, hy, he⟩ := (h.faults e).mpr ⟨x, hx⟩
          rcases hmem hy with rfl | hy
          · exact ⟨new, hself, (effect.faults e).mpr (.inl he)⟩
          · exact ⟨y, hy, he⟩
        · exact ⟨new, hself, (effect.faults e).mpr (.inr ⟨x, hx⟩)⟩
    · intro hfailed
      simp only [List.filterMap_append, List.mem_append]
      rcases hraised hfailed with hfailed | ⟨e, he⟩
      · obtain ⟨x, e, hx⟩ := h.flagged hfailed
        exact ⟨x, e, .inl hx⟩
      · obtain ⟨x, hx⟩ := hold he
        exact ⟨x, e, .inl hx⟩
    · intro hdrops
      apply hkeeps
      by_cases hbefore : told.filterMap Motion.dropped? = []
      · rw [List.filterMap_append, hbefore] at hdrops
        exact effect.dropped hdrops
      · exact h.dropped hbefore
    · intro hover
      rcases hback hover with hover | hnew
      · exact (h.exhausted hover).imp hempty hkeeps
      · exact hdone hnew.symm

theorem Books.start (threads : Nat) (items : List α) (s : σ) :
    Books items (Crew.start threads items s : Crew α τ ε σ) [] := by
  have hidle {hand : Hand α τ ε} (h : hand ∈ (Crew.start threads items s : Crew α τ ε σ).hands) : hand = .idle :=
    List.eq_of_mem_replicate h
  have hnone {β : Type} (f : Hand α τ ε → Option β) (hf : f .idle = none) :
      (Crew.start threads items s : Crew α τ ε σ).hands.filterMap f = [] := by
    rw [List.filterMap_eq_nil_iff]
    intro hand h
    rw [hidle h, hf]
  refine ⟨?_, ?_, ?_, ?_, ?_, ?_⟩
  · intro x
    rw [hnone Hand.held? rfl]
    simp [Crew.start]
  · intro x
    rw [hnone Hand.workedOn? rfl]
    simp
  · intro e
    simp only [List.filterMap_nil, List.not_mem_nil, exists_false, iff_false]
    intro hfault
    obtain ⟨hand, h, he⟩ := hfault
    rw [hidle h] at he
    cases he
  · intro hfailed
    cases hfailed
  · intro hdrops
    exact absurd rfl hdrops
  · intro hover
    cases hidle hover

theorem Books.run (trade : Trade α τ ε σ κ) (threads : Nat) (items : List α) (s : σ) (moves : List (Nat × κ)) :
    Books items ((Crew.start threads items s).run trade moves) ((Crew.start threads items s).motions trade moves) :=
  run_keeps (P := Books items) (fun h hmakes => h.step hmakes) (.start threads items s) moves

/-- Of items that are all different none is begun twice. -/
theorem Books.begun_once (h : Books items c told) (hnodup : items.Nodup) :
    (told.filterMap Motion.begun?).Nodup ∧ ∀ x ∈ told.filterMap Motion.begun?, x ∈ items := by
  constructor
  · rw [List.nodup_iff_count]
    intro x
    have hlisted := h.listed x
    have honce := List.nodup_iff_count.mp hnodup x
    omega
  · intro x hx
    have hlisted := h.listed x
    have hbegun := List.count_pos_iff.mpr hx
    apply List.count_pos_iff.mp
    omega

theorem Books.ends (h : Books items c told) (hdone : c.AllDone) (hne : c.hands ≠ []) :
    (told.filterMap Motion.begun?).Perm ((told.filterMap Motion.ended?).map Prod.fst) ∧
    (c.outcome = .ok () ↔ (told.filterMap Motion.begun?).Perm items ∧
      ∀ x result, (x, result) ∈ told.filterMap Motion.ended? → result = .ok ()) ∧
    ∀ e, c.outcome = .error e → ∃ x, (x, .error e) ∈ told.filterMap Motion.ended? := by
  have hnone {β : Type} (f : Hand α τ ε → Option β) (hf : ∀ result, f (.done result) = none) : c.hands.filterMap f = [] := by
    rw [List.filterMap_eq_nil_iff]
    intro hand hmem
    have hover := hdone hand hmem
    cases hand with
    | done result => exact hf result
    | _ => cases hover
  refine ⟨?_, ⟨?_, ?_⟩, ?_⟩
  · rw [List.perm_iff_count]
    intro x
    have hworked := h.worked x
    rw [hnone Hand.workedOn? fun _ => rfl] at hworked
    simpa using hworked
  · intro hok
    have hfine := outcome_ok_iff.mp hok
    have hended : ∀ x e, (x, .error e) ∉ told.filterMap Motion.ended? := by
      intro x e hx
      obtain ⟨hand, hmem, hfault⟩ := (h.faults e).mpr ⟨x, hx⟩
      cases (hfine hand hmem).symm.trans hfault
    have hflag : ¬ c.failed = true := by
      intro hfailed
      obtain ⟨x, e, hx⟩ := h.flagged hfailed
      exact hended x e hx
    have hkept : told.filterMap Motion.dropped? = [] := Classical.byContradiction fun hdrops => hflag (h.dropped hdrops)
    -- somebody has found the queue empty
    have hqueue : c.queue = [] := by
      obtain ⟨hand, hmem⟩ := List.exists_mem_of_ne_nil _ hne
      have hover := hdone hand hmem
      have hquiet := hfine hand hmem
      cases hand with
      | done result =>
        cases result with
        | ok => exact (h.exhausted hmem).resolve_right hflag
        | error e => cases hquiet
      | _ => cases hover
    constructor
    · rw [List.perm_iff_count]
      intro x
      have hlisted := h.listed x
      rw [hqueue, hkept, hnone Hand.held? fun _ => rfl] at hlisted
      simpa using hlisted.symm
    · intro x result hx
      cases result with
      | ok => rfl
      | error e => exact absurd hx (hended x e)
  · intro hall
    obtain ⟨-, hfine⟩ := hall
    rw [outcome_ok_iff]
    intro hand hmem
    cases hfault : hand.fault? with
    | none => rfl
    | some e =>
      obtain ⟨x, hx⟩ := (h.faults e).mp ⟨hand, hmem, hfault⟩
      cases hfine x _ hx
  · intro e herror
    exact (h.faults e).mp (fault_of_outcome herror)

end Books

/-! ## A single worker -/

/-- How the only worker stands, and what it has begun and ended. -/
inductive Alone (items : List α) : List α → Bool → Hand α τ ε → List α → List (α × Except ε Unit) → Prop
  | idle {past rest : List α} (list : items = past ++ rest) : Alone items rest false .idle past (past.map (·, .ok ()))
  | holding {past rest : List α} {item : α} (list : items = past ++ item :: rest) :
      Alone items rest false (.holding item) past (past.map (·, .ok ()))
  | working {past rest : List α} {item : α} {task : τ} (list : items = past ++ item :: rest) :
      Alone items rest false (.working item task) (past ++ [item]) (past.map (·, .ok ()))
  | failed {past rest : List α} {item : α} {e : ε} {flag : Bool} {hand : Hand α τ ε} (fault : hand.fault? = some e)
      (list : items = past ++ item :: rest) :
      Alone items rest flag hand (past ++ [item]) (past.map (·, .ok ()) ++ [(item, .error e)])
  | quits {rest begun : List α} {flag : Bool} {ended : List (α × Except ε Unit)} :
      Alone items rest flag (.done (.ok ())) begun ended

theorem Alone.takesEffect {queue queue' begun : List α} {flag flag' : Bool} {old new : Hand α τ ε} {ended : List (α × Except ε Unit)}
    {motion : Motion α ε} (h : Alone items queue flag old begun ended) (heffect : Effect queue flag old motion queue' flag' new) :
    Alone items queue' flag' new (begun ++ [motion].filterMap Motion.begun?) (ended ++ [motion].filterMap Motion.ended?) := by
  cases heffect with
  | takes =>
    cases h with
    | idle list => simpa [Motion.begun?, Motion.ended?, List.filterMap_cons] using Alone.holding list
    | failed fault list => cases fault
  | retires => exact .quits
  | begins =>
    cases h with
    | holding list => simpa [Motion.begun?, Motion.ended?, List.filterMap_cons] using Alone.working list
    | failed fault list => cases fault
  | drops => exact .quits
  | goesOn =>
    cases h with
    | working list => simpa [Motion.begun?, Motion.ended?, List.filterMap_cons] using Alone.working list
    | failed fault list => cases fault
  | @finishes item =>
    cases h with
    | @working past rest item task list =>
      have hpast : items = (past ++ [item]) ++ queue := by simp [list]
      simpa [Motion.begun?, Motion.ended?, List.filterMap_cons] using Alone.idle hpast
    | failed fault list => cases fault
  | fails =>
    cases h with
    | working list => simpa [Motion.begun?, Motion.ended?, List.filterMap_cons] using Alone.failed rfl list
    | failed fault list => cases fault
  | @raises e =>
    cases h with
    | @failed past rest item e' flag hand fault list =>
      have hstill : (Hand.done (.error e) : Hand α τ ε).fault? = some e' := fault
      simpa [Motion.begun?, Motion.ended?, List.filterMap_cons] using Alone.failed hstill list

def Sole (items : List α) (c : Crew α τ ε σ) (told : List (Motion α ε)) : Prop :=
  ∃ hand, c.hands = [hand] ∧ Alone items c.queue c.failed hand (told.filterMap Motion.begun?) (told.filterMap Motion.ended?)

theorem Sole.step (h : Sole items c told) (hmakes : c.Makes i motion c') : Sole items c' (told ++ motion.toList) := by
  cases hmakes with
  | rests => simpa using h
  | @effect old new motion queue failed shared hand effect =>
    obtain ⟨only, hhands, halone⟩ := h
    rw [hhands] at hand
    obtain ⟨rfl, rfl⟩ : i = 0 ∧ only = old := by
      cases i with
      | zero => exact ⟨rfl, Option.some.inj hand⟩
      | succ i => cases hand
    refine ⟨new, by simp [hhands], ?_⟩
    rw [Option.toList_some, List.filterMap_append, List.filterMap_append]
    exact halone.takesEffect effect

theorem Sole.run (trade : Trade α τ ε σ κ) {threads : Nat} (hone : threads ≤ 1) (items : List α) (s : σ)
    (moves : List (Nat × κ)) :
    Sole items ((Crew.start threads items s).run trade moves) ((Crew.start threads items s).motions trade moves) := by
  have hmax : max threads 1 = 1 := by omega
  have hstart : Sole items (Crew.start threads items s : Crew α τ ε σ) [] := ⟨.idle, by simp [Crew.start, hmax], .idle rfl⟩
  exact run_keeps (P := Sole items) (fun h hmakes => h.step hmakes) hstart moves

/-- A single worker that fails has ended the items before the one that failed, and begun none after it. -/
theorem Sole.fails (h : Sole items c told) {e : ε} (herror : c.outcome = .error e) :
    ∃ past item rest, items = past ++ item :: rest ∧ told.filterMap Motion.begun? = past ++ [item] ∧
      told.filterMap Motion.ended? = past.map (·, .ok ()) ++ [(item, .error e)] := by
  obtain ⟨hand, hhands, halone⟩ := h
  obtain ⟨hand', hmem, hfault⟩ := fault_of_outcome herror
  rw [hhands, List.mem_singleton] at hmem
  subst hmem
  generalize c.queue = queue, c.failed = flag, told.filterMap Motion.begun? = begun, told.filterMap Motion.ended? = ended
    at halone
  cases halone with
  | @failed past rest item e' flag hand fault list =>
    cases fault.symm.trans hfault
    exact ⟨past, item, _, list, rfl, rfl⟩
  | _ => cases hfault

end Crew

/-! ## Positions and outcomes -/

/-- A trade on items that are told apart by a number. -/
def Trade.numbered {α τ ε σ κ : Type} (trade : Trade α τ ε σ κ) : Trade (α × Nat) τ ε σ κ where
  begin item := trade.begin item.1
  step choice item := trade.step choice item.1

/-- All of the work on an item at once, as a pool does it. -/
def Trade.whole {α ε σ : Type} (work : α → σ → Except ε Unit × σ) : Trade α Unit ε σ Unit where
  begin _ := ()
  step _ item _ s := (.ended (work item s).1, (work item s).2)

def Trade.chosen : Trade String Unit String Unit (Except String Unit) where
  begin _ := ()
  step choice _ _ _ := (.ended choice, ())

def Hand.plain {α τ ε : Type} : Hand (α × Nat) τ ε → Hand α τ ε
  | idle => idle
  | holding item => holding item.1
  | working item task => working item.1 task
  | quitting e => quitting e
  | done result => done result

@[simp] theorem Hand.fault?_plain {α τ ε : Type} (hand : Hand (α × Nat) τ ε) : hand.plain.fault? = hand.fault? := by
  cases hand with
  | done result => cases result <;> rfl
  | _ => rfl

namespace Crew

variable {α τ ε σ κ : Type} {trade : Trade α τ ε σ κ}

def plain (c : Crew (α × Nat) τ ε σ) : Crew α τ ε σ :=
  ⟨c.queue.map Prod.fst, c.failed, c.hands.map Hand.plain, c.shared⟩

theorem plain_step (c : Crew (α × Nat) τ ε σ) (move : Nat × κ) :
    (c.step trade.numbered move).plain = c.plain.step trade move := by
  obtain ⟨queue, failed, hands, shared⟩ := c
  have hset (hand : Hand (α × Nat) τ ε) :
      (hands.set move.1 hand).map Hand.plain = (hands.map Hand.plain).set move.1 hand.plain := List.map_set
  have hhand : (plain ⟨queue, failed, hands, shared⟩).hands[move.1]? = hands[move.1]?.map Hand.plain := List.getElem?_map
  unfold step
  rw [hhand]
  cases hands[move.1]? with
  | none => rfl
  | some hand =>
    cases hand with
    | idle => cases queue <;> simp [plain, Hand.plain]
    | holding item => cases failed <;> simp [plain, Hand.plain, Trade.numbered]
    | working item task =>
      simp only [Option.map_some, Hand.plain, plain, Trade.numbered]
      cases trade.step move.2 item.1 task shared with
      | mk piece shared' =>
        cases piece with
        | more task' => simp [Hand.plain]
        | ended result => cases result <;> simp [Hand.plain]
    | quitting e => simp [plain, Hand.plain]
    | done result => rfl

theorem plain_run (c : Crew (α × Nat) τ ε σ) (moves : List (Nat × κ)) :
    (c.run trade.numbered moves).plain = c.plain.run trade moves := by
  induction moves generalizing c with
  | nil => rfl
  | cons move moves ih =>
    show ((c.step trade.numbered move).run trade.numbered moves).plain = (c.plain.step trade move).run trade moves
    rw [ih, plain_step]

theorem plain_start (threads : Nat) (items : List α) (s : σ) :
    (start threads items.zipIdx s : Crew (α × Nat) τ ε σ).plain = start threads items s := by
  simp [plain, start, Hand.plain]

theorem plain_outcome (c : Crew (α × Nat) τ ε σ) : c.plain.outcome = c.outcome := by
  have hfault : (Hand.fault? ∘ Hand.plain : Hand (α × Nat) τ ε → Option ε) = Hand.fault? := funext Hand.fault?_plain
  rw [outcome, outcome, plain, List.findSome?_map, hfault]

/-! ## Runs -/

/-- What a pool runs is one of the runs of its crew. -/
theorem pool_run (work : α → σ → Except ε Unit × σ) (threads : Nat) (items : List α) (s : σ) :
    ∃ moves, ((start threads items s).run (Trade.whole work) moves).AllDone ∧
      ((start threads items s).run (Trade.whole work) moves).outcome = ((Pool.start threads items s).run work).outcome := by
  have hstart : Mirrors (Trade.whole work) Eq (Pool.start threads items s) (start threads items s) :=
    mirrors_start threads items rfl
  have hwork : ∀ item s' t, s' = t →
      ∃ t', (Trade.whole work).Does item () t (work item s').1 t' ∧ (work item s').2 = t' := by
    intro item s' t hs
    subst hs
    exact ⟨_, .last () rfl, rfl⟩
  obtain ⟨moves, -, hdone, houtcome⟩ := hstart.run work hwork ()
  exact ⟨moves, hdone, houtcome⟩

/-- Whatever a trade is, however many workers there are (none counts as one), whatever comes of their works and in
    whatever order they move: there are at most three motions for each item and one for each worker, unfinished
    pieces of work not counted, and a worker that is not done is never kept from moving, so the run ends if all works do.
    No position is begun twice. Once all workers are done, each work that was begun has ended; the
    outcome is a success just if all positions were begun, each once, and no work failed, and else the error of a work
    that failed. A single worker has then ended the positions before the first that failed, and
    begun none after it. What a pool runs is one of these runs. -/
theorem each_worked_on_once (trade : Trade α τ ε σ κ) (threads : Nat) (paths : List α) (s : σ) (moves : List (Nat × κ))
    {c : Crew (α × Nat) τ ε σ} (hc : (start threads paths.zipIdx s).run trade.numbered moves = c)
    {told : List (Motion (α × Nat) ε)} (htold : (start threads paths.zipIdx s).motions trade.numbered moves = told) :
    ((start threads paths s).run trade moves = c.plain ∧ c.plain.outcome = c.outcome) ∧
    told.countP (!·.isPiece) ≤ 3 * paths.length + max threads 1 ∧
    (∀ i hand, c.hands[i]? = some hand → hand.isDone = false →
      ∀ choice, (c.motion? trade.numbered (i, choice)).isSome = true) ∧
    (told.filterMap Motion.begun?).Nodup ∧
    (∀ path k, (path, k) ∈ told.filterMap Motion.begun? → paths[k]? = some path) ∧
    (c.AllDone →
      (told.filterMap Motion.begun?).Perm ((told.filterMap Motion.ended?).map Prod.fst) ∧
      (c.outcome = .ok () ↔ (told.filterMap Motion.begun?).Perm paths.zipIdx ∧
        ∀ x result, (x, result) ∈ told.filterMap Motion.ended? → result = .ok ()) ∧
      (∀ e, c.outcome = .error e → ∃ x, (x, .error e) ∈ told.filterMap Motion.ended?) ∧
      (threads ≤ 1 → ∀ e, c.outcome = .error e → ∃ path k, paths[k]? = some path ∧
        told.filterMap Motion.begun? = paths.zipIdx.take (k + 1) ∧
        told.filterMap Motion.ended? = (paths.zipIdx.take k).map (·, .ok ()) ++ [((path, k), .error e)])) ∧
    ∀ work : α → σ → Except ε Unit × σ, ∃ schedule, ((start threads paths s).run (Trade.whole work) schedule).AllDone ∧
      ((start threads paths s).run (Trade.whole work) schedule).outcome = ((Pool.start threads paths s).run work).outcome := by
  classical
  subst hc
  subst htold
  have hbooks := Books.run trade.numbered threads paths.zipIdx s moves
  have hnodup : paths.zipIdx.Nodup := by
    have hnumbers : (paths.zipIdx.map Prod.snd).Nodup := by
      rw [List.zipIdx_map_snd]
      exact List.nodup_range'
    exact List.Pairwise.of_map Prod.snd (fun x y hne heq => hne (congrArg Prod.snd heq)) hnumbers
  have hweight := motions_weight trade.numbered (start threads paths.zipIdx s) moves
  rw [weight_start, List.length_zipIdx] at hweight
  obtain ⟨honce, hlisted⟩ := hbooks.begun_once hnodup
  refine ⟨⟨?_, plain_outcome _⟩, by omega, fun i hand => motion_isSome, honce, ?_, ?_, ?_⟩
  · rw [plain_run, plain_start]
  · intro path k hbegun
    exact List.mem_zipIdx_iff_getElem?.mp (hlisted _ hbegun)
  · intro hdone
    obtain ⟨hended, hok, herror⟩ := hbooks.ends hdone (hands_ne_nil trade.numbered threads paths.zipIdx s moves)
    refine ⟨hended, hok, herror, ?_⟩
    intro hone e hfails
    obtain ⟨past, ⟨path, k⟩, rest, hlist, hbegun, hended⟩ := (Sole.run trade.numbered hone paths.zipIdx s moves).fails hfails
    have hat : paths.zipIdx[past.length]? = some (path, k) := by
      rw [hlist, List.getElem?_append_right (Nat.le_refl _), Nat.sub_self, List.getElem?_cons_zero]
    rw [List.getElem?_zipIdx, Nat.zero_add, Option.map_eq_some_iff] at hat
    obtain ⟨path', hpath, heq⟩ := hat
    cases heq
    refine ⟨path, past.length, hpath, ?_, ?_⟩
    · rw [hbegun, hlist, List.take_append, List.take_of_length_le (Nat.le_succ _), Nat.add_sub_cancel_left]
      rfl
    · rw [hended, hlist, List.take_left]
  · exact fun work => pool_run work threads paths s

/-- The first worker has taken the third position when the second one, whose work has failed, raises the flag. -/
def raisedInTime : List (Nat × Except String Unit) := [(0, .ok ()), (1, .ok ()), (0, .ok ()), (1, .ok ()), (1, .error "full"),
  (0, .ok ()), (0, .ok ()), (1, .ok ()), (0, .ok ())]

/-- Two workers, and a path that is twice in the list. -/
theorem third_position_dropped : ∃ c told, (start 2 ["a", "b", "a"].zipIdx ()).run Trade.chosen.numbered raisedInTime = c ∧
    (start 2 ["a", "b", "a"].zipIdx ()).motions Trade.chosen.numbered raisedInTime = told ∧ c.AllDone ∧
    c.outcome = .error "full" ∧ told.filterMap Motion.begun? = [("a", 0), ("b", 1)] ∧
    told.filterMap Motion.dropped? = [("a", 2)] ∧
    (told.filterMap Motion.begun?).Perm ((told.filterMap Motion.ended?).map Prod.fst) ∧
    ∃ x, (x, .error "full") ∈ told.filterMap Motion.ended? := by
  have hhands : ((start 2 ["a", "b", "a"].zipIdx ()).run Trade.chosen.numbered raisedInTime).hands =
      [.done (.ok ()), .done (.error "full")] := by rfl
  have hdone : ((start 2 ["a", "b", "a"].zipIdx ()).run Trade.chosen.numbered raisedInTime).AllDone := by
    rw [AllDone, hhands]
    simp [Hand.isDone]
  have hfails : ((start 2 ["a", "b", "a"].zipIdx ()).run Trade.chosen.numbered raisedInTime).outcome = .error "full" := by
    rw [outcome, hhands]
    rfl
  obtain ⟨-, -, -, -, -, hends, -⟩ := each_worked_on_once Trade.chosen 2 ["a", "b", "a"] () raisedInTime rfl rfl
  obtain ⟨hended, -, herror, -⟩ := hends hdone
  exact ⟨_, _, rfl, rfl, hdone, hfails, by rfl, by rfl, hended, herror "full" hfails⟩

end Crew

end TwinLog
