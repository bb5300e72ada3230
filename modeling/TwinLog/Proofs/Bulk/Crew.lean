/-
  TwinLog.Proofs.Bulk.Crew — workers whose work takes steps.

  A worker of a `Pool` works on an item in one move. A worker of a `Crew` does one piece at a
  time, while the others do pieces of theirs on the same shared state; what a piece depends on
  besides (free bytes, a turn at the index) is chosen with it. After a piece that fails, the
  worker still has to raise the flag. A run is a list of moves in any order, each by one worker.

  A `Trade` says what the pieces are, a `Law` what they keep: what is `good` stays good, a task
  under way stays as it is while others work, an item that is finished stays finished, and
  whatever a piece opens is held by its worker until it is over. `Accounts` is the invariant of
  a run: every item is in the queue, with a worker, or finished, unless somebody has failed.
  `Accounts.ends` is what is left when all workers are done.

  A run of a pool is one of the runs of a crew that does the same in pieces (`Crew.Mirrors.run`).
-/

import TwinLog.Bulk.Pool

namespace TwinLog

inductive Hand (α τ ε : Type) where
  | idle
  /-- Has taken an item and not yet looked at the flag. -/
  | holding (item : α)
  | working (item : α) (task : τ)
  /-- Has failed and not yet raised the flag. -/
  | quitting (e : ε)
  | done (result : Except ε Unit)

inductive Piece (τ ε : Type) where
  | more (task : τ)
  | ended (result : Except ε Unit)

structure Trade (α τ ε σ κ : Type) where
  begin : α → τ
  step : κ → α → τ → σ → Piece τ ε × σ

structure Crew (α τ ε σ : Type) where
  queue : List α
  failed : Bool
  hands : List (Hand α τ ε)
  shared : σ

namespace Hand

variable {α τ ε : Type}

def item? : Hand α τ ε → Option α
  | holding item | working item _ => some item
  | _ => none

def fault? : Hand α τ ε → Option ε
  | quitting e | done (.error e) => some e
  | _ => none

def isDone : Hand α τ ε → Bool
  | done _ => true
  | _ => false

end Hand

namespace Crew

variable {α τ ε σ κ : Type}

def start (threads : Nat) (items : List α) (shared : σ) : Crew α τ ε σ :=
  ⟨items, false, List.replicate (max threads 1) .idle, shared⟩

def step (trade : Trade α τ ε σ κ) (c : Crew α τ ε σ) (move : Nat × κ) : Crew α τ ε σ :=
  match c.hands[move.1]? with
  | some .idle => match c.queue with
    | [] => { c with hands := c.hands.set move.1 (.done (.ok ())) }
    | item :: rest => { c with queue := rest, hands := c.hands.set move.1 (.holding item) }
  | some (.holding item) =>
    { c with hands := c.hands.set move.1 (if c.failed then .done (.ok ()) else .working item (trade.begin item)) }
  | some (.working item task) => match trade.step move.2 item task c.shared with
    | (.more task, shared) => { c with shared, hands := c.hands.set move.1 (.working item task) }
    | (.ended (.ok ()), shared) => { c with shared, hands := c.hands.set move.1 .idle }
    | (.ended (.error e), shared) => { c with shared, hands := c.hands.set move.1 (.quitting e) }
  | some (.quitting e) => { c with failed := true, hands := c.hands.set move.1 (.done (.error e)) }
  | _ => c

def run (trade : Trade α τ ε σ κ) (c : Crew α τ ε σ) (moves : List (Nat × κ)) : Crew α τ ε σ :=
  moves.foldl (step trade) c

def AllDone (c : Crew α τ ε σ) : Prop := ∀ h ∈ c.hands, h.isDone = true

/-- The first failure in the order of the workers. -/
def outcome (c : Crew α τ ε σ) : Except ε Unit :=
  match c.hands.findSome? Hand.fault? with
  | some e => .error e
  | none => .ok ()

theorem run_append (trade : Trade α τ ε σ κ) (c : Crew α τ ε σ) (moves more : List (Nat × κ)) :
    c.run trade (moves ++ more) = (c.run trade moves).run trade more := List.foldl_append ..

end Crew

/-! ## What work keeps -/

/-- What holds of the pieces of a trade. `ι` names what they open. -/
structure Trade.Law {α τ ε σ κ : Type} (trade : Trade α τ ε σ κ) (ι : Type) where
  /-- The items that are worked on. -/
  meant : α → Prop
  good : σ → Prop
  busy : α → τ → σ → Prop
  finished : α → σ → Prop
  wrong : α → ε → Prop
  opens : σ → ι → Prop
  holds : τ → ι → Prop
  begins : ∀ {item s}, meant item → good s → busy item (trade.begin item) s
  stays_good : ∀ {c item task s}, good s → busy item task s → good (trade.step c item task s).2
  stays_busy : ∀ {c item task s item' task'}, good s → busy item task s → busy item' task' s →
    busy item' task' (trade.step c item task s).2
  stays_finished : ∀ {c item task s item'}, good s → busy item task s → finished item' s →
    finished item' (trade.step c item task s).2
  more : ∀ {c item task s task'}, good s → busy item task s → (trade.step c item task s).1 = .more task' →
    busy item task' (trade.step c item task s).2
  ends : ∀ {c item task s}, good s → busy item task s → (trade.step c item task s).1 = .ended (.ok ()) →
    finished item (trade.step c item task s).2
  fails : ∀ {c item task s e}, good s → busy item task s → (trade.step c item task s).1 = .ended (.error e) →
    wrong item e
  settles : ∀ {c item task s j}, good s → busy item task s → opens (trade.step c item task s).2 j →
    opens s j ∧ ¬holds task j ∨ ∃ task', (trade.step c item task s).1 = .more task' ∧ holds task' j

namespace Crew

variable {α τ ε σ κ ι : Type} {trade : Trade α τ ε σ κ} {law : trade.Law ι} {items : List α} {c : Crew α τ ε σ}

/-- What is certain of a crew on its way. -/
structure Accounts (law : trade.Law ι) (items : List α) (c : Crew α τ ε σ) : Prop where
  meant : ∀ x ∈ items, law.meant x
  good : law.good c.shared
  busy : ∀ item task, .working item task ∈ c.hands → law.busy item task c.shared
  queued : ∀ x ∈ c.queue, x ∈ items
  taken : ∀ h ∈ c.hands, ∀ x, h.item? = some x → x ∈ items
  wrong : ∀ h ∈ c.hands, ∀ e, h.fault? = some e → ∃ x ∈ items, law.wrong x e
  flagged : c.failed = true → ∃ h ∈ c.hands, ∃ e, h.fault? = some e
  exhausted : .done (.ok ()) ∈ c.hands → c.queue = [] ∨ c.failed = true
  accounted : ∀ x ∈ items, x ∈ c.queue ∨ (∃ h ∈ c.hands, h.item? = some x) ∨ law.finished x c.shared ∨
    ∃ h ∈ c.hands, ∃ e, h.fault? = some e
  held : ∀ j, law.opens c.shared j → ∃ item task, .working item task ∈ c.hands ∧ law.holds task j

theorem accounts_start {s : σ} (hmeant : ∀ x ∈ items, law.meant x) (hs : law.good s) (hopen : ∀ j, ¬law.opens s j)
    (threads : Nat) : Accounts law items (start threads items s) := by
  have hidle {h : Hand α τ ε} (hh : h ∈ (start threads items s : Crew α τ ε σ).hands) : h = .idle :=
    List.eq_of_mem_replicate hh
  exact {
    meant := hmeant
    good := hs
    busy := fun item task hh => nomatch hidle hh
    queued := fun x hx => hx
    taken := by
      intro h hh x hx
      rw [hidle hh] at hx
      cases hx
    wrong := by
      intro h hh e he
      rw [hidle hh] at he
      cases he
    flagged := nofun
    exhausted := fun hh => nomatch hidle hh
    accounted := fun x hx => .inl hx
    held := fun j hj => absurd hj (hopen j) }

theorem mem_set_or {β : Type} {l : List β} {i : Nat} {old x : β} (h : l[i]? = some old) (hx : x ∈ l) (new : β) :
    x = old ∨ x ∈ l.set i new := by
  obtain ⟨j, hj, rfl⟩ := List.getElem_of_mem hx
  by_cases hij : i = j
  · subst hij
    exact .inl (Option.some.inj ((List.getElem?_eq_getElem hj).symm.trans h))
  · right
    have hj' : j < (l.set i new).length := by rw [List.length_set]; exact hj
    exact List.mem_of_getElem (by rw [List.getElem_set_ne hij] : (l.set i new)[j] = l[j])

theorem mem_set_self {β : Type} {l : List β} {i : Nat} {old : β} (h : l[i]? = some old) (new : β) :
    new ∈ l.set i new := List.mem_set (List.getElem?_eq_some_iff.mp h).1 new

theorem Accounts.replaced (h : Accounts law items c) {i : Nat} {old : Hand α τ ε} (hi : c.hands[i]? = some old)
    {queue : List α} {failed : Bool} {shared : σ} {new : Hand α τ ε}
    (hgood : law.good shared)
    (hbusy : ∀ item task, law.busy item task c.shared → law.busy item task shared)
    (hfinished : ∀ x, law.finished x c.shared → law.finished x shared)
    (hqueue : queue ⊆ c.queue)
    (hfailed : c.failed = true → failed = true)
    (hnew : ∀ item task, new = .working item task → law.busy item task shared)
    (hitem : ∀ x, new.item? = some x → x ∈ items)
    (hfault : ∀ e, new.fault? = some e → old.fault? = some e ∨ ∃ x ∈ items, law.wrong x e)
    (hkeeps : ∀ e, old.fault? = some e → new.fault? = some e)
    (hflag : failed = true → c.failed = true ∨ ∃ e, new.fault? = some e)
    (hdone : new = .done (.ok ()) → queue = [] ∨ failed = true)
    (hleft : ∀ x ∈ items, x ∈ c.queue ∨ old.item? = some x → x ∈ queue ∨ new.item? = some x ∨
      law.finished x shared ∨ (∃ e, new.fault? = some e) ∨ c.failed = true)
    (hheld : ∀ j, law.opens shared j → law.opens c.shared j ∧
      (∀ item task, old = .working item task → ¬law.holds task j) ∨
      ∃ item task, new = .working item task ∧ law.holds task j) :
    Accounts law items ⟨queue, failed, c.hands.set i new, shared⟩ := by
  have hself := mem_set_self hi new
  have hmem {x : Hand α τ ε} (hx : x ∈ c.hands) := mem_set_or hi hx new
  have hback {x : Hand α τ ε} (hx : x ∈ c.hands.set i new) : x ∈ c.hands ∨ x = new := List.mem_or_eq_of_mem_set hx
  have hold : old ∈ c.hands := List.mem_of_getElem? hi
  -- whoever has failed before has failed now
  have hfailing : (∃ x ∈ c.hands, ∃ e, x.fault? = some e) → ∃ x ∈ c.hands.set i new, ∃ e, x.fault? = some e := by
    rintro ⟨x, hx, e, he⟩
    rcases hmem hx with rfl | hx
    · exact ⟨new, hself, e, hkeeps e he⟩
    · exact ⟨x, hx, e, he⟩
  refine ⟨h.meant, hgood, ?_, fun x hx => h.queued x (hqueue hx), ?_, ?_, ?_, ?_, ?_, ?_⟩
  · intro item task hx
    rcases hback hx with hx | hx
    · exact hbusy item task (h.busy item task hx)
    · exact hnew item task hx.symm
  · intro x hx y hy
    rcases hback hx with hx | rfl
    · exact h.taken x hx y hy
    · exact hitem y hy
  · intro x hx e he
    rcases hback hx with hx | rfl
    · exact h.wrong x hx e he
    · exact (hfault e he).elim (h.wrong old hold e) id
  · intro hf
    rcases hflag hf with hf | ⟨e, he⟩
    · exact hfailing (h.flagged hf)
    · exact ⟨new, hself, e, he⟩
  · intro hx
    rcases hback hx with hx | hx
    · rcases h.exhausted hx with hq | hf
      · exact .inl (List.subset_nil.mp (hq ▸ hqueue))
      · exact .inr (hfailed hf)
    · exact hdone hx.symm
  · intro x hx
    have left (hl : x ∈ c.queue ∨ old.item? = some x) : x ∈ queue ∨
        (∃ h ∈ c.hands.set i new, h.item? = some x) ∨ law.finished x shared ∨
        ∃ h ∈ c.hands.set i new, ∃ e, h.fault? = some e := by
      rcases hleft x hx hl with hq | hn | hf | ⟨e, he⟩ | hf
      · exact .inl hq
      · exact .inr (.inl ⟨new, hself, hn⟩)
      · exact .inr (.inr (.inl hf))
      · exact .inr (.inr (.inr ⟨new, hself, e, he⟩))
      · exact .inr (.inr (.inr (hfailing (h.flagged hf))))
    rcases h.accounted x hx with hq | ⟨y, hy, hxy⟩ | hf | hf
    · exact left (.inl hq)
    · rcases hmem hy with rfl | hy
      · exact left (.inr hxy)
      · exact .inr (.inl ⟨y, hy, hxy⟩)
    · exact .inr (.inr (.inl (hfinished x hf)))
    · exact .inr (.inr (.inr (hfailing hf)))
  · intro j hj
    rcases hheld j hj with ⟨hj, hnot⟩ | ⟨item, task, rfl, ht⟩
    · obtain ⟨item, task, hx, ht⟩ := h.held j hj
      rcases hmem hx with hx | hx
      · exact absurd ht (hnot item task hx.symm)
      · exact ⟨item, task, hx, ht⟩
    · exact ⟨item, task, hself, ht⟩

theorem Accounts.turned (h : Accounts law items c) {i : Nat} {old : Hand α τ ε} (hi : c.hands[i]? = some old)
    {queue : List α} {failed : Bool} {new : Hand α τ ε}
    (hqueue : queue ⊆ c.queue)
    (hfailed : c.failed = true → failed = true)
    (hnew : ∀ item task, new = .working item task → law.busy item task c.shared)
    (hold : ∀ item task, old ≠ .working item task)
    (hitem : ∀ x, new.item? = some x → x ∈ items)
    (hfault : ∀ e, new.fault? = some e ↔ old.fault? = some e)
    (hflag : failed = true → c.failed = true ∨ ∃ e, new.fault? = some e)
    (hdone : new = .done (.ok ()) → queue = [] ∨ failed = true)
    (hleft : ∀ x, x ∈ c.queue ∨ old.item? = some x → x ∈ queue ∨ new.item? = some x ∨ c.failed = true) :
    Accounts law items ⟨queue, failed, c.hands.set i new, c.shared⟩ := by
  refine h.replaced hi h.good (fun _ _ hb => hb) (fun _ hf => hf) hqueue hfailed hnew hitem
    (fun e he => .inl ((hfault e).mp he)) (fun e he => (hfault e).mpr he) hflag hdone ?_ ?_
  · intro x _ hx
    rcases hleft x hx with hq | hn | hf
    · exact .inl hq
    · exact .inr (.inl hn)
    · exact .inr (.inr (.inr (.inr hf)))
  · exact fun j hj => .inl ⟨hj, fun item task ho => absurd ho (hold item task)⟩

theorem Accounts.worked (h : Accounts law items c) {i : Nat} {item : α} {task : τ}
    (hi : c.hands[i]? = some (.working item task)) (choice : κ) {new : Hand α τ ε}
    (hpiece : (∃ task', (trade.step choice item task c.shared).1 = .more task' ∧ new = .working item task') ∨
      (trade.step choice item task c.shared).1 = .ended (.ok ()) ∧ new = .idle ∨
      ∃ e, (trade.step choice item task c.shared).1 = .ended (.error e) ∧ new = .quitting e) :
    Accounts law items { c with shared := (trade.step choice item task c.shared).2, hands := c.hands.set i new } := by
  have hbusy := h.busy item task (List.mem_of_getElem? hi)
  have hmine : item ∈ items := h.taken _ (List.mem_of_getElem? hi) item rfl
  have hopen (j : ι) (hj : law.opens (trade.step choice item task c.shared).2 j) :
      law.opens c.shared j ∧ (∀ item' task', Hand.working item task = (.working item' task' : Hand α τ ε) →
        ¬law.holds task' j) ∨ ∃ task', (trade.step choice item task c.shared).1 = .more task' ∧ law.holds task' j := by
    refine (law.settles h.good hbusy hj).imp_left fun hj => ⟨hj.1, ?_⟩
    intro item' task' heq
    cases heq
    exact hj.2
  refine h.replaced hi (law.stays_good h.good hbusy) (fun _ _ => law.stays_busy h.good hbusy)
    (fun _ => law.stays_finished h.good hbusy) (List.Subset.refl _) id ?_ ?_ ?_ nofun .inl ?_ ?_ ?_
  · rintro item' task' rfl
    rcases hpiece with ⟨task'', hmore, heq⟩ | ⟨-, heq⟩ | ⟨e, -, heq⟩
    · cases heq
      exact law.more h.good hbusy hmore
    · cases heq
    · cases heq
  · rintro x hx
    rcases hpiece with ⟨task', -, rfl⟩ | ⟨-, rfl⟩ | ⟨e, -, rfl⟩
    · cases hx
      exact hmine
    · cases hx
    · cases hx
  · rintro e he
    rcases hpiece with ⟨task', -, rfl⟩ | ⟨-, rfl⟩ | ⟨e', hfails, rfl⟩
    · cases he
    · cases he
    · cases he
      exact .inr ⟨item, hmine, law.fails h.good hbusy hfails⟩
  · rintro rfl
    rcases hpiece with ⟨_, -, heq⟩ | ⟨-, heq⟩ | ⟨_, -, heq⟩ <;> cases heq
  · rintro x - (hq | hx)
    · exact .inl hq
    · cases hx
      rcases hpiece with ⟨task', -, rfl⟩ | ⟨hover, -⟩ | ⟨e, -, rfl⟩
      · exact .inr (.inl rfl)
      · exact .inr (.inr (.inl (law.ends h.good hbusy hover)))
      · exact .inr (.inr (.inr (.inl ⟨e, rfl⟩)))
  · intro j hj
    refine (hopen j hj).imp_right ?_
    rintro ⟨task', hmore, ht⟩
    rcases hpiece with ⟨task'', hmore', rfl⟩ | ⟨hover, -⟩ | ⟨e, hover, -⟩
    · cases hmore.symm.trans hmore'
      exact ⟨item, task', rfl, ht⟩
    · cases hmore.symm.trans hover
    · cases hmore.symm.trans hover

theorem accounts_step (h : Accounts law items c) (move : Nat × κ) : Accounts law items (c.step trade move) := by
  unfold step
  split
  · rename_i hi
    split
    · rename_i hq
      exact h.turned hi (List.Subset.refl _) id nofun nofun nofun (fun _ => Iff.rfl) .inl (fun _ => .inl hq)
        fun x hx => .inl (hx.resolve_right nofun)
    · rename_i item rest hq
      have hmine : item ∈ items := h.queued item (hq ▸ List.mem_cons_self)
      refine h.turned hi (hq ▸ List.subset_cons_self ..) id nofun nofun ?_ (fun _ => Iff.rfl) .inl nofun ?_
      · rintro x hx
        cases hx
        exact hmine
      · rintro x (hx | hx)
        · rw [hq] at hx
          rcases List.mem_cons.mp hx with rfl | hx
          · exact .inr (.inl rfl)
          · exact .inl hx
        · cases hx
  · rename_i item hi
    have hmine : item ∈ items := h.taken _ (List.mem_of_getElem? hi) item rfl
    cases hf : c.failed with
    | true =>
      exact h.turned hi (List.Subset.refl _) (fun _ => rfl) nofun nofun nofun (fun _ => Iff.rfl) (fun _ => .inl hf)
        (fun _ => .inr rfl) fun _ _ => .inr (.inr hf)
    | false =>
      refine h.turned hi (List.Subset.refl _) (fun ht => hf.symm.trans ht) ?_ nofun ?_ (fun _ => Iff.rfl) nofun nofun ?_
      · rintro item' task' heq
        cases heq
        exact law.begins (h.meant item hmine) h.good
      · rintro x hx
        cases hx
        exact hmine
      · rintro x (hx | hx)
        · exact .inl hx
        · exact .inr (.inl hx)
  · rename_i item task hi
    split
    · rename_i task' shared hstep
      have hmore := h.worked hi move.2 (.inl ⟨task', by rw [hstep], rfl⟩)
      rw [hstep] at hmore
      exact hmore
    · rename_i shared hstep
      have hover := h.worked hi move.2 (.inr (.inl ⟨by rw [hstep], rfl⟩))
      rw [hstep] at hover
      exact hover
    · rename_i e shared hstep
      have hover := h.worked hi move.2 (.inr (.inr ⟨e, by rw [hstep], rfl⟩))
      rw [hstep] at hover
      exact hover
  · rename_i e hi
    exact h.turned hi (List.Subset.refl _) (fun _ => rfl) nofun nofun nofun (fun _ => Iff.rfl) (fun _ => .inr ⟨e, rfl⟩)
      (fun _ => .inr rfl) fun x hx => .inl (hx.resolve_right nofun)
  · exact h

theorem accounts_run (h : Accounts law items c) (moves : List (Nat × κ)) : Accounts law items (c.run trade moves) := by
  induction moves generalizing c with
  | nil => exact h
  | cons move moves ih => exact ih (accounts_step h move)

theorem outcome_ok_iff : c.outcome = .ok () ↔ ∀ hand ∈ c.hands, hand.fault? = none := by
  rw [← List.findSome?_eq_none_iff, outcome]
  cases c.hands.findSome? Hand.fault? <;> simp

theorem fault_of_outcome {e : ε} (h : c.outcome = .error e) : ∃ hand ∈ c.hands, hand.fault? = some e := by
  unfold outcome at h
  split at h
  · rename_i hfault
    cases h
    exact List.exists_of_findSome?_eq_some hfault
  · cases h

theorem Accounts.ends (h : Accounts law items c) (hdone : c.AllDone) (hne : c.hands ≠ []) :
    law.good c.shared ∧ (∀ j, ¬law.opens c.shared j) ∧
      (c.outcome = .ok () → ∀ x ∈ items, law.finished x c.shared) ∧
      ∀ e, c.outcome = .error e → ∃ x ∈ items, law.wrong x e := by
  refine ⟨h.good, ?_, ?_, ?_⟩
  · intro j hj
    obtain ⟨item, task, hx, -⟩ := h.held j hj
    cases hdone _ hx
  · intro ho x hx
    have hfine := outcome_ok_iff.mp ho
    have hquiet : ¬∃ y ∈ c.hands, ∃ e, y.fault? = some e := by
      rintro ⟨y, hy, e, he⟩
      cases he.symm.trans (hfine y hy)
    rcases h.accounted x hx with hq | ⟨y, hy, hxy⟩ | hf | hf
    · -- a worker that is done has found the queue empty
      obtain ⟨y, hy⟩ := List.exists_mem_of_ne_nil _ hne
      have hyd := hdone y hy
      have hyf := hfine y hy
      cases y with
      | done r =>
        cases r with
        | ok _ =>
          rcases h.exhausted hy with he | hf
          · rw [he] at hq
            cases hq
          · exact absurd (h.flagged hf) hquiet
        | error e => cases hyf
      | _ => cases hyd
    · have hyd := hdone y hy
      cases y with
      | done _ => cases hxy
      | _ => cases hyd
    · exact hf
    · exact absurd hf hquiet
  · intro e ho
    obtain ⟨y, hy, hye⟩ := fault_of_outcome ho
    exact h.wrong y hy e hye

theorem hands_length (trade : Trade α τ ε σ κ) (c : Crew α τ ε σ) (moves : List (Nat × κ)) :
    (c.run trade moves).hands.length = c.hands.length := by
  induction moves generalizing c with
  | nil => rfl
  | cons move moves ih =>
    refine (ih (c.step trade move)).trans ?_
    unfold step
    repeat (first | rfl | exact List.length_set | split)

theorem hands_ne_nil (trade : Trade α τ ε σ κ) (threads : Nat) (items : List α) (s : σ) (moves : List (Nat × κ)) :
    ((start threads items s).run trade moves).hands ≠ [] := by
  intro hnil
  have hlength := hands_length trade (start threads items s) moves
  rw [hnil] at hlength
  simp only [start, List.length_replicate, List.length_nil] at hlength
  omega

end Crew

/-! ## A pool is a crew -/

/-- All pieces of the work on an item, one after the other. -/
inductive Trade.Does {α τ ε σ κ : Type} (trade : Trade α τ ε σ κ) (item : α) : τ → σ → Except ε Unit → σ → Prop
  | last {task : τ} {s s' : σ} {r : Except ε Unit} (choice : κ)
      (piece : trade.step choice item task s = (.ended r, s')) : Does trade item task s r s'
  | more {task task' : τ} {s s' s'' : σ} {r : Except ε Unit} (choice : κ)
      (piece : trade.step choice item task s = (.more task', s')) (rest : Does trade item task' s' r s'') :
      Does trade item task s r s''

def Hand.after {α τ ε : Type} : Except ε Unit → Hand α τ ε
  | .ok () => .idle
  | .error e => .quitting e

def Worker.hand {α τ ε σ κ : Type} (trade : Trade α τ ε σ κ) : Worker α ε → Hand α τ ε
  | .idle => .idle
  | .holding item => .holding item
  | .working item => .working item (trade.begin item)
  | .done r => .done r

namespace Crew

variable {α τ ε σ σ' κ : Type} {trade : Trade α τ ε σ κ} {c : Crew α τ ε σ}

/-- A worker who is let alone does his work. -/
theorem run_does {item : α} {task : τ} {s s' : σ} {r : Except ε Unit} (hd : trade.Does item task s r s')
    (hs : c.shared = s) {i : Nat} (hi : c.hands[i]? = some (.working item task)) :
    ∃ moves, c.run trade moves = { c with shared := s', hands := c.hands.set i (.after r) } := by
  induction hd generalizing c with
  | last choice piece =>
    refine ⟨[(i, choice)], ?_⟩
    subst hs
    rename_i r
    show c.step trade (i, choice) = _
    simp only [step, hi, piece]
    cases r <;> rfl
  | more choice piece rest ih =>
    subst hs
    rename_i task task' s' s'' r
    have hstep : c.step trade (i, choice) = { c with shared := s', hands := c.hands.set i (.working item task') } := by
      simp only [step, hi, piece]
    obtain ⟨moves, hmoves⟩ := ih (c := { c with shared := s', hands := c.hands.set i (.working item task') }) rfl
      (List.getElem?_set_self (List.getElem?_eq_some_iff.mp hi).1)
    refine ⟨(i, choice) :: moves, ?_⟩
    show (c.step trade (i, choice)).run trade moves = _
    rw [hstep, hmoves]
    simp only [List.set_set]

/-- A crew stands as a pool does. -/
structure Mirrors (trade : Trade α τ ε σ κ) (R : σ' → σ → Prop) (p : Pool α ε σ') (c : Crew α τ ε σ) : Prop where
  queue : c.queue = p.queue
  failed : c.failed = p.failed
  hands : c.hands = p.workers.map (Worker.hand trade)
  shared : R p.shared c.shared

variable {R : σ' → σ → Prop} {p : Pool α ε σ'} (work : α → σ' → Except ε Unit × σ')

theorem mirrors_start (threads : Nat) (items : List α) {s' : σ'} {s : σ} (hs : R s' s) :
    Mirrors trade R (Pool.start threads items s') (start threads items s) where
  queue := rfl
  failed := rfl
  hands := by simp only [start, Pool.start, List.map_replicate, Worker.hand]
  shared := hs

/-- One move of a pool is some moves of one worker. -/
theorem Mirrors.step (h : Mirrors trade R p c) (hwork : ∀ item s' s, R s' s →
      ∃ t, trade.Does item (trade.begin item) s (work item s').1 t ∧ R (work item s').2 t) (choice : κ) (i : Nat) :
    ∃ moves, Mirrors trade R (p.step work i) (c.run trade moves) := by
  have hhand {w : Worker α ε} (hi : p.workers[i]? = some w) : c.hands[i]? = some (w.hand trade) := by
    rw [h.hands, List.getElem?_map, hi]
    rfl
  have hset (w : Worker α ε) : c.hands.set i (w.hand trade) = (p.workers.set i w).map (Worker.hand trade) := by
    rw [h.hands, List.map_set]
  unfold Pool.step
  split
  · rename_i hi
    refine ⟨[(i, choice)], ?_⟩
    show Mirrors trade R _ (c.step trade (i, choice))
    cases hq : p.queue with
    | nil =>
      have hstep : c.step trade (i, choice) = { c with hands := c.hands.set i (.done (.ok ())) } := by
        simp only [Crew.step, hhand hi, Worker.hand, h.queue.trans hq]
      rw [hstep]
      exact ⟨h.queue.trans hq, h.failed, hset (.done (.ok ())), h.shared⟩
    | cons item rest =>
      have hstep : c.step trade (i, choice) = { c with queue := rest, hands := c.hands.set i (.holding item) } := by
        simp only [Crew.step, hhand hi, Worker.hand, h.queue.trans hq]
      rw [hstep]
      exact ⟨rfl, h.failed, hset (.holding item), h.shared⟩
  · rename_i item hi
    refine ⟨[(i, choice)], ?_⟩
    show Mirrors trade R _ (c.step trade (i, choice))
    cases hf : p.failed with
    | true =>
      have hstep : c.step trade (i, choice) = { c with hands := c.hands.set i (.done (.ok ())) } := by
        simp only [Crew.step, hhand hi, Worker.hand, h.failed.trans hf, if_true]
      rw [hstep]
      exact ⟨h.queue, h.failed.trans hf, hset (.done (.ok ())), h.shared⟩
    | false =>
      have hstep : c.step trade (i, choice) =
          { c with hands := c.hands.set i (.working item (trade.begin item)) } := by
        simp only [Crew.step, hhand hi, Worker.hand, h.failed.trans hf, Bool.false_eq_true, if_false]
      rw [hstep]
      exact ⟨h.queue, h.failed.trans hf, hset (.working item), h.shared⟩
  · rename_i item hi
    obtain ⟨t, hdoes, hR⟩ := hwork item p.shared c.shared h.shared
    obtain ⟨moves, hmoves⟩ := run_does hdoes rfl (hhand hi)
    generalize work item p.shared = worked at hmoves hR ⊢
    obtain ⟨r, s'⟩ := worked
    cases r with
    | ok _ =>
      refine ⟨moves, ?_⟩
      rw [hmoves]
      exact ⟨h.queue, h.failed, hset .idle, hR⟩
    | error e =>
      -- the flag is still to be raised
      refine ⟨moves ++ [(i, choice)], ?_⟩
      rw [run_append, hmoves]
      have hself : (c.hands.set i (.quitting e))[i]? = some (.quitting e) :=
        List.getElem?_set_self (List.getElem?_eq_some_iff.mp (hhand hi)).1
      show Mirrors trade R _ (Crew.step trade _ (i, choice))
      simp only [Crew.step, Hand.after, hself, List.set_set]
      exact ⟨h.queue, rfl, hset (.done (.error e)), hR⟩
  · exact ⟨[], h⟩

/-- A run of a pool is one of the runs of its crew. -/
theorem Mirrors.run (h : Mirrors trade R p c) (hwork : ∀ item s' s, R s' s →
      ∃ t, trade.Does item (trade.begin item) s (work item s').1 t ∧ R (work item s').2 t) (choice : κ) :
    ∃ moves, Mirrors trade R (p.run work) (c.run trade moves) ∧ (c.run trade moves).AllDone ∧
      (c.run trade moves).outcome = (p.run work).outcome := by
  induction p using Pool.run.induct work generalizing c with
  | case1 p hnext =>
    rw [Pool.run]
    split
    · refine ⟨[], h, ?_, ?_⟩
      · intro x hx
        have hx : x ∈ c.hands := hx
        rw [h.hands] at hx
        obtain ⟨w, hw, rfl⟩ := List.mem_map.mp hx
        have hdone := List.findIdx?_eq_none_iff.mp hnext w hw
        cases w with
        | done r => rfl
        | _ => cases hdone
      · show c.outcome = p.outcome
        unfold outcome Pool.outcome
        rw [h.hands, List.findSome?_map]
        congr 2
        funext w
        cases w with
        | done r => cases r <;> rfl
        | _ => rfl
    · rename_i i hi
      cases hnext.symm.trans hi
  | case2 p i hnext ih =>
    rw [Pool.run]
    split
    · rename_i hn
      cases hnext.symm.trans hn
    · rename_i j hj
      cases hnext.symm.trans hj
      obtain ⟨moves, hstep⟩ := h.step work hwork choice i
      obtain ⟨more, hrun, hdone, houtcome⟩ := ih hstep
      refine ⟨moves ++ more, ?_⟩
      rw [run_append]
      exact ⟨hrun, hdone, houtcome⟩

end Crew

end TwinLog
