/-
  TwinLog.Proofs.Bulk.Loading — a load whose workers move in any order.

  To add a file a worker opens it and begins an add, does the parts of that add one by one,
  and looks at its answer; only a timeout makes it open the file again. `Load.trade` has these
  pieces, with the free bytes chosen for each. Nobody commits while the workers are busy, so
  the headers on disk are those of the opening (`Intake.Sound`). `Load.law` is what the pieces
  keep: an add stays with the worker that has begun it, and a file that is recorded stays so.
-/

import TwinLog.Proofs.Bulk.Intake

namespace TwinLog

/-! ## Runs that only undo -/

/-- No header has been stored since the opening. -/
def Twin.Undoes (t : Twin) : Prop := .commit ∉ t.contentDeeds ∧ .commit ∉ t.indexDeeds

theorem Twin.Undoes.move {t : Twin} (h : t.Undoes) (key : String) (phase : Phase) (part : Part) :
    (t.move key phase part).2.Undoes := by
  have record (slot : Nat) (l : Location) (space : Volume.Space) (granted : Bool) :
      (t.record key slot l space granted).2.Undoes := by
    unfold Twin.record
    split <;> exact h
  have head (granted : Bool) : (t.headIndex .rollback granted).Undoes := by
    unfold headIndex
    split
    · exact ⟨h.1, List.not_mem_cons_of_ne_of_not_mem nofun h.2⟩
    · exact h
  have hmove := t.move_moved key phase part
  generalize (t.move key phase part).1 = phase', (t.move key phase part).2 = t' at hmove ⊢
  cases hmove with
  | returned => exact record ..
  | headed ht =>
    unfold headContent at ht
    split at ht
    · cases ht
    · cases ht
      exact ⟨List.not_mem_cons_of_ne_of_not_mem nofun h.1, h.2⟩
  | unwound => exact head _
  | _ => exact h

theorem Twin.next_timely (t : Twin) (space : Volume.Space) (src : Source) (phase : Phase) :
    (t.next space src phase).1.Timely := by
  cases phase with
  | starting =>
    show (src.opening t.traffic.disk).Timely
    unfold Source.opening
    split <;> trivial
  | appending slot =>
    dsimp only [next]
    split
    · trivial
    · rename_i a _
      unfold Stage.next
      split
      · trivial
      · trivial
      · trivial
      · trivial
      · exact rfl
      · exact rfl
      · exact rfl
  | unwinding e => exact rfl
  | _ => trivial

/-! ## The trade -/

/-- What a worker does next for its file; it may begin again so many times. -/
inductive Errand where
  | opening (left : Nat)
  | adding (i left : Nat)

namespace Errand

def add? : Errand → Option Nat
  | opening _ => none
  | adding i _ => some i

end Errand

def Intake.answer? (s : Intake) (i : Nat) : Option (Except Fault Location) :=
  s.service.adds[i]?.bind (·.phase.answer?)

namespace Load

def reply : Nat → Except Fault Location → Piece Errand Fault
  | _, .ok _ => .ended (.ok ())
  | left + 1, .error (.timedOut _) => .more (.opening left)
  | _, .error e => .ended (.error e)

def trade (w : Volume) (attempts : Nat) : Trade String Errand Fault Intake Volume.Space where
  begin _ := .opening (attempts - 1)
  step space path
    | .opening left, s => match Source.openAt w path 0 with
      | .error e => (.ended (.error (.io e)), s)
      | .ok src =>
        if path = "" then (.ended (.error (.invalidArgument .emptyKey)), s)
        else (.more (.adding s.service.adds.length left), s.accept path src)
    | .adding i left, s => match s.answer? i with
      | none => (.more (.adding i left), s.advance i space)
      | some r => (reply left r, s)

inductive Does (w : Volume) (space : Volume.Space) (path : String) (s : Intake) :
    Errand → Piece Errand Fault × Intake → Prop
  | refused {left : Nat} (e : Fault) : Does w space path s (.opening left) (.ended (.error e), s)
  | accepted {left : Nat} {src : Source} (opened : Source.openAt w path 0 = .ok src) (key : path ≠ "") :
      Does w space path s (.opening left) (.more (.adding s.service.adds.length left), s.accept path src)
  | advanced {i left : Nat} : Does w space path s (.adding i left) (.more (.adding i left), s.advance i space)
  | answered {i left : Nat} {r : Except Fault Location} (answer : s.answer? i = some r) :
      Does w space path s (.adding i left) (reply left r, s)

theorem trade_does (w : Volume) (attempts : Nat) (space : Volume.Space) (path : String) (task : Errand) (s : Intake) :
    Does w space path s task ((trade w attempts).step space path task s) := by
  cases task with
  | opening left =>
    dsimp only [trade]
    split
    · exact .refused _
    · rename_i src hsrc
      split
      · exact .refused _
      · rename_i hkey
        exact .accepted hsrc hkey
  | adding i left =>
    dsimp only [trade]
    split
    · exact .advanced
    · rename_i r hr
      exact .answered hr

theorem reply_ended {left : Nat} {r : Except Fault Location} (h : reply left r = .ended (.ok ())) : ∃ l, r = .ok l := by
  unfold reply at h
  split at h
  · exact ⟨_, rfl⟩
  · cases h
  · cases h

theorem reply_more {left : Nat} {r : Except Fault Location} {task : Errand} (h : reply left r = .more task) :
    task.add? = none := by
  unfold reply at h
  split at h
  · cases h
  · cases h
    rfl
  · cases h

end Load

/-! ## What holds on the way -/

/-- A vault that stands, with nothing under way that competes. -/
structure Service.Begins (g : Ground) (s : Service) : Prop where
  stands : ∃ p saved, s.Stands g p saved
  contest : s.Contest g.opening g.base g.first
  named : s.Named
  whole : ¬s.twin.Torn

/-- A load under way in the vault that opened with `l` on `w`. -/
structure Intake.Sound (w : Volume) (l : Logs) (g : Ground) (paths : List String) (s : Intake) : Prop where
  run : ∃ turns : List Turn, (∀ turn ∈ turns, turn.Timely) ∧ s.service = (Service.ofLogs l w.disk).run turns
  shared : s.service.exclusive = none
  undoes : s.service.twin.Undoes
  listed : ∀ (i : Nat) (a : Adding), s.service.adds[i]? = some a → a.key ∈ paths
  fed : s.Fed w g

namespace Intake

variable {w : Volume} {l : Logs} {g : Ground} {paths : List String} {s : Intake}

theorem advance_cases (s : Intake) (i : Nat) (space : Volume.Space) :
    s.advance i space = s ∨ ∃ a part, s.service.adds[i]? = some a ∧ part.Timely ∧
      (s.advance i space).service = s.service.step (.add i part) ∧
      s.service.step (.add i part) = ⟨(s.service.twin.move a.key a.phase part).2,
        s.service.adds.set i { a with phase := (s.service.twin.move a.key a.phase part).1 }, s.service.exclusive⟩ := by
  unfold advance
  split
  · rename_i a src hi _
    exact .inr ⟨a, _, hi, s.service.twin.next_timely space src a.phase, rfl, Service.step_moved hi _⟩
  · exact .inl rfl

theorem advance_adds (s : Intake) (i : Nat) (space : Volume.Space) :
    (∀ j, i ≠ j → (s.advance i space).service.adds[j]? = s.service.adds[j]?) ∧
      ∀ a, s.service.adds[i]? = some a → ∃ phase, (s.advance i space).service.adds[i]? = some ⟨a.key, phase⟩ := by
  rcases s.advance_cases i space with hsame | ⟨a, part, hi, -, hservice, hstep⟩
  · rw [hsame]
    exact ⟨fun _ _ => rfl, fun a ha => ⟨a.phase, ha⟩⟩
  · rw [hservice, hstep]
    refine ⟨fun j hij => List.getElem?_set_ne hij, ?_⟩
    intro b hb
    cases hi.symm.trans hb
    exact ⟨_, List.getElem?_set_self (List.getElem?_eq_some_iff.mp hi).1⟩

namespace Sound

theorem start (w : Volume) (l : Logs) (g : Ground) (paths : List String) :
    (Intake.ofLogs l w.disk).Sound w l g paths where
  run := ⟨[], nofun, rfl⟩
  shared := rfl
  undoes := ⟨nofun, nofun⟩
  listed := fun _ _ hi => nomatch hi
  fed := fed_ofLogs w g l w.disk

variable (h : s.Sound w l g paths) (hb : (Service.ofLogs l w.disk).Begins g)
include h hb

theorem stands : ∃ p saved, s.service.Stands g p saved := by
  obtain ⟨turns, -, hrun⟩ := h.run
  obtain ⟨p, saved, hstands⟩ := hb.stands
  rw [hrun]
  exact Service.stands_run hstands turns

theorem contest : s.service.Contest g.opening g.base g.first := by
  obtain ⟨turns, -, hrun⟩ := h.run
  rw [hrun]
  exact (Service.contest_run hb.contest turns).1

theorem named : s.service.Named := by
  obtain ⟨turns, -, hrun⟩ := h.run
  rw [hrun]
  exact Service.named_run hb.named turns

theorem beside : w.disk.Beside g.storage g.index s.service.twin.traffic.disk := by
  obtain ⟨turns, htimely, hrun⟩ := h.run
  obtain ⟨p, saved, hstands⟩ := hb.stands
  rw [hrun]
  exact (hstands.timely_run (fun htorn => absurd htorn hb.whole) htimely).2

/-- What is recorded stays so. -/
theorem advance_recorded {j slot : Nat} {key : String} {loc : Location}
    (hj : s.service.adds[j]? = some ⟨key, .recorded slot loc⟩) (i : Nat) (space : Volume.Space) :
    (s.advance i space).service.adds[j]? = some ⟨key, .recorded slot loc⟩ := by
  rcases s.advance_cases i space with hsame | ⟨a, part, -, -, hservice, -⟩
  · rw [hsame]
    exact hj
  · rw [hservice]
    exact (Service.contest_step (h.contest hb) _).2.recorded j key slot loc hj

theorem advance (i : Nat) (space : Volume.Space) : (s.advance i space).Sound w l g paths := by
  have hfed := h.fed.advance (h.contest hb) (h.beside hb) i space
  rcases s.advance_cases i space with hsame | ⟨a, part, hi, htimely, hservice, hstep⟩
  · rw [hsame]
    exact h
  obtain ⟨turns, hturns, hrun⟩ := h.run
  refine ⟨⟨turns ++ [.add i part], ?_, ?_⟩, ?_, ?_, ?_, hfed⟩
  · intro turn hturn
    rcases List.mem_append.mp hturn with hturn | hturn
    · exact hturns turn hturn
    · cases List.mem_singleton.mp hturn
      exact htimely
  · rw [hservice, hrun, Service.run_append]
    rfl
  · rw [hservice, hstep]
    exact h.shared
  · rw [hservice, hstep]
    exact h.undoes.move ..
  · intro j b hj
    rw [hservice, hstep] at hj
    rcases getElem?_set_cases hj with ⟨rfl, rfl⟩ | ⟨-, hj⟩
    · exact h.listed _ a hi
    · exact h.listed j b hj

omit hb in
theorem accept (hfiles : ∀ path ∈ paths, ∀ f, w.openToRead path = .ok (.file f) → f ≠ g.storage ∧ f ≠ g.index)
    {path : String} (hpath : path ∈ paths) (hkey : path ≠ "") {src : Source} (hsrc : Source.openAt w path 0 = .ok src) :
    (s.accept path src).Sound w l g paths := by
  obtain ⟨opened, hopened, rfl⟩ : ∃ opened, w.openToRead path = .ok opened ∧ opened.source 0 = src := by
    rw [Source.openAt_start] at hsrc
    cases ho : w.openToRead path with
    | error e =>
      rw [ho] at hsrc
      cases hsrc
    | ok opened =>
      rw [ho] at hsrc
      cases hsrc
      exact ⟨opened, rfl, rfl⟩
  have hfed := h.fed.accept hkey h.shared hopened (fun he => (hfiles path hpath _ (he ▸ hopened)).1 rfl)
    fun he => (hfiles path hpath _ (he ▸ hopened)).2 rfl
  have hservice : (s.accept path (opened.source 0)).service = _ := step_begin hkey h.shared
  obtain ⟨turns, hturns, hrun⟩ := h.run
  refine ⟨⟨turns ++ [.begin path], ?_, ?_⟩, ?_, ?_, ?_, hfed⟩
  · intro turn hturn
    rcases List.mem_append.mp hturn with hturn | hturn
    · exact hturns turn hturn
    · cases List.mem_singleton.mp hturn
      trivial
  · rw [Service.run_append, ← hrun]
    rfl
  · rw [hservice]
    exact h.shared
  · rw [hservice]
    exact h.undoes
  · intro j b hj
    rw [hservice] at hj
    rcases getElem?_snoc_cases hj with hj | ⟨-, rfl⟩
    · exact h.listed j b hj
    · exact hpath

end Sound

end Intake

/-! ## The law -/

def Errand.Under (paths : List String) (path : String) (s : Intake) : Errand → Prop
  | .opening _ => path ∈ paths
  | .adding i _ => path ∈ paths ∧ ∃ phase, s.service.adds[i]? = some ⟨path, phase⟩

def Intake.Has (s : Intake) (path : String) : Prop :=
  ∃ (i slot : Nat) (loc : Location), s.service.adds[i]? = some ⟨path, .recorded slot loc⟩

theorem Phase.inactive {phase : Phase} {r : Except Fault Location} (h : phase.answer? = some r) :
    phase.active = false := by
  cases phase with
  | recorded slot l => rfl
  | failed e => rfl
  | _ => cases h

theorem Phase.recorded_of_answer {phase : Phase} {l : Location} (h : phase.answer? = some (.ok l)) :
    ∃ slot, phase = .recorded slot l := by
  cases phase with
  | recorded slot l' =>
    cases h
    exact ⟨slot, rfl⟩
  | failed e => cases h
  | _ => cases h

namespace Load

section Law

variable {w : Volume} {l : Logs} {g : Ground} {paths : List String} {space : Volume.Space}
  {path : String} {s s' : Intake} {task : Errand} {piece : Piece Errand Fault}
  (hb : (Service.ofLogs l w.disk).Begins g)
  (hfiles : ∀ path ∈ paths, ∀ f, w.openToRead path = .ok (.file f) → f ≠ g.storage ∧ f ≠ g.index)

include hb hfiles in
theorem Does.sound (h : Does w space path s task (piece, s')) (hs : s.Sound w l g paths)
    (hu : task.Under paths path s) : s'.Sound w l g paths := by
  cases h with
  | refused e => exact hs
  | accepted opened key => exact hs.accept hfiles hu key opened
  | advanced => exact hs.advance hb _ space
  | answered => exact hs

include hb in
theorem Does.keeps (h : Does w space path s task (piece, s')) (hs : s.Sound w l g paths) {j : Nat} {a : Adding}
    (hj : s.service.adds[j]? = some a) : (∃ phase, s'.service.adds[j]? = some ⟨a.key, phase⟩) ∧
      ∀ slot loc, a.phase = .recorded slot loc → s'.service.adds[j]? = some a := by
  cases h with
  | refused e => exact ⟨⟨a.phase, hj⟩, fun _ _ _ => hj⟩
  | @accepted left src opened key =>
    have hold : (s.accept path src).service.adds[j]? = some a := by
      have hservice : (s.accept path src).service = _ := Intake.step_begin key hs.shared
      rw [hservice]
      exact getElem?_snoc_of_some hj
    exact ⟨⟨a.phase, hold⟩, fun _ _ _ => hold⟩
  | @advanced i left =>
    obtain ⟨hothers, hown⟩ := s.advance_adds i space
    refine ⟨?_, ?_⟩
    · by_cases hij : i = j
      · subst hij
        exact hown a hj
      · exact ⟨a.phase, (hothers j hij).trans hj⟩
    · rintro slot loc hphase
      obtain ⟨key, phase⟩ := a
      cases hphase
      exact hs.advance_recorded hb hj i space
  | answered => exact ⟨⟨a.phase, hj⟩, fun _ _ _ => hj⟩

include hb in
theorem Does.under (h : Does w space path s task (piece, s')) (hs : s.Sound w l g paths) {path' : String}
    {task' : Errand} (hu : task'.Under paths path' s) : task'.Under paths path' s' := by
  cases task' with
  | opening left => exact hu
  | adding i left =>
    obtain ⟨hpath, phase, hi⟩ := hu
    exact ⟨hpath, (h.keeps hb hs hi).1⟩

theorem Does.more (h : Does w space path s task (piece, s')) (hs : s.Sound w l g paths)
    (hu : task.Under paths path s) {task' : Errand} (hp : piece = .more task') : task'.Under paths path s' := by
  cases h with
  | refused e => cases hp
  | @accepted left src opened key =>
    cases hp
    have hservice : (s.accept path src).service = _ := Intake.step_begin key hs.shared
    refine ⟨hu, .starting, ?_⟩
    rw [hservice]
    exact List.getElem?_concat_length
  | @advanced i left =>
    cases hp
    obtain ⟨hpath, phase, hi⟩ := hu
    exact ⟨hpath, (s.advance_adds i space).2 _ hi⟩
  | answered answer =>
    have hnone := reply_more hp
    cases task' with
    | opening left => exact hu.1
    | adding i left => cases hnone

theorem Does.ends (h : Does w space path s task (piece, s')) (hu : task.Under paths path s)
    (hp : piece = .ended (.ok ())) : s'.Has path := by
  cases h with
  | refused e => cases hp
  | accepted opened key => cases hp
  | advanced => cases hp
  | @answered i left r answer =>
    obtain ⟨-, phase, hi⟩ := hu
    obtain ⟨loc, rfl⟩ := reply_ended hp
    rw [Intake.answer?, hi] at answer
    obtain ⟨slot, rfl⟩ := Phase.recorded_of_answer answer
    exact ⟨i, slot, loc, hi⟩

/-- Whoever begins an add stays with it until it is over. -/
theorem Does.settles (h : Does w space path s task (piece, s')) (hs : s.Sound w l g paths) {j : Nat}
    (hj : ∃ a, s'.service.adds[j]? = some a ∧ a.phase.active = true) :
    (∃ a, s.service.adds[j]? = some a ∧ a.phase.active = true) ∧ ¬task.add? = some j ∨
      ∃ task', piece = .more task' ∧ task'.add? = some j := by
  obtain ⟨a, hj, hactive⟩ := hj
  cases h with
  | refused e => exact .inl ⟨⟨a, hj, hactive⟩, nofun⟩
  | @accepted left src opened key =>
    have hservice : (s.accept path src).service = _ := Intake.step_begin key hs.shared
    rw [hservice] at hj
    rcases getElem?_snoc_cases hj with hj | ⟨rfl, -⟩
    · exact .inl ⟨⟨a, hj, hactive⟩, nofun⟩
    · exact .inr ⟨_, rfl, rfl⟩
  | @advanced i left =>
    by_cases hij : i = j
    · exact .inr ⟨_, rfl, congrArg some hij⟩
    · rw [(s.advance_adds i space).1 j hij] at hj
      exact .inl ⟨⟨a, hj, hactive⟩, fun he => hij (Option.some.inj he)⟩
  | @answered i left r answer =>
    refine .inl ⟨⟨a, hj, hactive⟩, ?_⟩
    intro he
    cases Option.some.inj he
    rw [Intake.answer?, hj] at answer
    cases hactive.symm.trans (Phase.inactive answer)

def law (attempts : Nat) : (trade w attempts).Law Nat where
  meant := (· ∈ paths)
  good := Intake.Sound w l g paths
  busy path task s := task.Under paths path s
  finished path s := s.Has path
  wrong _ _ := True
  opens s i := ∃ a, s.service.adds[i]? = some a ∧ a.phase.active = true
  holds task i := task.add? = some i
  begins := fun hpath _ => hpath
  stays_good := fun hs hu => (trade_does w attempts _ _ _ _).sound hb hfiles hs hu
  stays_busy := fun hs _ hu => (trade_does w attempts _ _ _ _).under hb hs hu
  stays_finished := by
    rintro space path task s path' hs - ⟨i, slot, loc, hi⟩
    exact ⟨i, slot, loc, ((trade_does w attempts space path task s).keeps hb hs hi).2 slot loc rfl⟩
  more := fun hs hu hp => (trade_does w attempts _ _ _ _).more hs hu hp
  ends := fun _ hu hp => (trade_does w attempts _ _ _ _).ends hu hp
  fails := fun _ _ _ => trivial
  settles := fun hs _ hj => (trade_does w attempts _ _ _ _).settles hs hj

end Law

end Load

end TwinLog
