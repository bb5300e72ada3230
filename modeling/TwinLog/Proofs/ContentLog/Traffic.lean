/-
  TwinLog.Proofs.ContentLog.Traffic — one content log and all the appends under way in it.

  An append goes through stages. It reserves its range (`reserve`), makes room for it
  (`room`, which may be refused), takes readings of its source and writes a chunk whenever
  one is full (`feed`), and releases its range (`release`, which gives the range back if
  there was no room for it). Commits and rollbacks of the log come in between. Each of
  these is one `Move`, done under a lock of the log, so a run of several threads is a list
  of moves in any order; a move that is not possible changes nothing. Reading from the log
  changes nothing either and is no move: what a read gives in a state is
  `ContentLog.get` there.

  `Frame` is what every move keeps, whoever makes it.
-/

import TwinLog.ContentLog.Transfer
import TwinLog.Proofs.Log.Memory

namespace TwinLog

/-! ## One more in a list -/

section Snoc

variable {α : Type} {l : List α} {i : Nat} {x y : α}

theorem getElem?_snoc_of_some (h : l[i]? = some y) : (l ++ [x])[i]? = some y :=
  (List.getElem?_append_left (List.getElem?_eq_some_iff.mp h).1).trans h

theorem getElem?_snoc_cases (h : (l ++ [x])[i]? = some y) : l[i]? = some y ∨ i = l.length ∧ y = x := by
  rw [List.getElem?_append] at h
  split at h
  · exact .inl h
  · have hlt := (List.getElem?_eq_some_iff.mp h).1
    rw [List.length_singleton] at hlt
    exact .inr ⟨by omega, List.mem_singleton.mp (List.mem_of_getElem? h)⟩

end Snoc

/-! ## The state -/

inductive Stage where
  /-- The range is reserved; there may be no room for it yet. -/
  | reserved
  /-- There is no room; the range is still to be given back. -/
  | refused (e : Fault)
  | streaming (t : Transfer)
  /-- The source is done with; the range is still to be released. -/
  | ended (result : Except Fault Location)
  | returned (l : Location)
  /-- Failed; nobody gets the range. -/
  | abandoned (e : Fault)
  /-- Failed; the cursor went back to the start of the range. -/
  | givenBack (e : Fault)

structure Append where
  start : Nat
  /-- The declared size. -/
  size : Nat
  stage : Stage
  /-- What the source has handed over so far. -/
  received : List UInt8

structure Traffic where
  log : ContentLog
  disk : Disk
  appends : List Append

inductive Move where
  | reserve (size : Nat)
  | room (i : Nat) (space : Volume.Space)
  | feed (i : Nat) (r : Reading)
  | release (i : Nat)
  | commit
  | rollback

def Move.heads : Move → Bool
  | .commit | .rollback => true
  | _ => false

def Move.Fills (i : Nat) : Move → Prop
  | .room j _ | .feed j _ => j = i
  | _ => False

theorem Move.Fills.heads {i : Nat} {m : Move} (h : m.Fills i) : m.heads = false := by
  cases m with
  | commit => cases h
  | rollback => cases h
  | _ => rfl

def Stage.over? : Stage → Option (Except Fault Location)
  | .returned l => some (.ok l)
  | .abandoned e | .givenBack e => some (.error e)
  | _ => none

theorem Stage.returned_of_over {stage : Stage} {l : Location} (h : stage.over? = some (.ok l)) :
    stage = .returned l := by
  unfold over? at h
  split at h
  · cases h
    rfl
  · cases h
  · cases h
  · cases h

def Transfer.takes (t : Transfer) : Reading → List UInt8
  | .ok bs => bs.take t.wants
  | .error _ => []

namespace Append

def span (a : Append) : Span := ⟨a.start, a.start + a.size⟩

def begun (a : Append) (c : ContentLog) : Stage :=
  if busy : 0 < a.size then
    .streaming ⟨a.start, a.size, min c.bufferSize a.size, #[], #[], true,
      Nat.lt_min.mpr ⟨c.bufferSize_pos, busy⟩, busy⟩
  else .ended (.ok (Transfer.location a.start #[]))

def room (space : Volume.Space) (a : Append) (c : ContentLog) (d : Disk) : Append × ContentLog × Disk :=
  match a.stage with
  | .reserved => match c.ensure space d a.span.finish with
    | .error e => ({ a with stage := .refused e }, c, d)
    | .ok (c, d) => ({ a with stage := a.begun c }, c, d)
  | _ => (a, c, d)

def feed (r : Reading) (a : Append) (c : ContentLog) (d : Disk) : Append × ContentLog × Disk :=
  match a.stage with
  | .streaming t =>
    let received := a.received ++ t.takes r
    match t.advance r c.log d with
    | (.waiting t, d) => ({ a with stage := .streaming t, received }, c, d)
    | (.ended result, d) => ({ a with stage := .ended result, received }, c, d)
  | _ => (a, c, d)

def release (a : Append) (c : ContentLog) (d : Disk) : Append × ContentLog × Disk :=
  match a.stage with
  | .ended (.ok l) => ({ a with stage := .returned l }, c.release a.span, d)
  | .ended (.error e) => ({ a with stage := .abandoned e }, c.release a.span, d)
  | .refused e =>
    ({ a with stage := if c.cursor = a.span.finish then .givenBack e else .abandoned e }, c.giveBack a.span, d)
  | _ => (a, c, d)

/-- The range, from its reservation on until it is released, if it holds anything. -/
def unreleased? (a : Append) : Option Span :=
  if a.size = 0 then none
  else match a.stage with
    | .returned _ | .abandoned _ | .givenBack _ => none
    | _ => some a.span

theorem unreleased?_of_over {a : Append} {r : Except Fault Location} (h : a.stage.over? = some r) :
    a.unreleased? = none := by
  unfold unreleased?
  split
  · rfl
  · split
    · rfl
    · rfl
    · rfl
    · rename_i hr ha hg
      unfold Stage.over? at h
      split at h
      · rename_i l hs; exact absurd hs (hr l)
      · rename_i e hs; exact absurd hs (ha e)
      · rename_i e hs; exact absurd hs (hg e)
      · cases h

/-- The range, unless it was given back, if it holds anything. -/
def held? (a : Append) : Option Span :=
  if a.size = 0 then none
  else match a.stage with
    | .givenBack _ => none
    | _ => some a.span

end Append

namespace Traffic

def act (s : Traffic) (i : Nat) (f : Append → ContentLog → Disk → Append × ContentLog × Disk) : Traffic :=
  match s.appends[i]? with
  | none => s
  | some a =>
    let (a, log, disk) := f a s.log s.disk
    ⟨log, disk, s.appends.set i a⟩

def head (s : Traffic) (store : ContentLog → Disk → Except Fault Disk) : Traffic :=
  match store s.log s.disk with
  | .error _ => s
  | .ok disk => { s with disk }

def step (s : Traffic) : Move → Traffic
  | .reserve size => match s.log.reserve size with
    | .error _ => s
    | .ok (start, log) => { s with log, appends := s.appends ++ [⟨start, size, .reserved, []⟩] }
  | .room i space => s.act i (Append.room space)
  | .feed i r => s.act i (Append.feed r)
  | .release i => s.act i Append.release
  | .commit => s.head ContentLog.commit
  | .rollback => s.head ContentLog.rollback

def run (s : Traffic) (moves : List Move) : Traffic := moves.foldl step s

def idle (c : ContentLog) (d : Disk) : Traffic := ⟨c, d, []⟩

/-- The ranges that appends under way, finished or abandoned have for themselves. -/
def held (s : Traffic) : List Span := s.appends.filterMap Append.held?

def unreleased (s : Traffic) : List Span := s.appends.filterMap Append.unreleased?

def Returned (s : Traffic) (i : Nat) (l : Location) (bs : List UInt8) : Prop :=
  ∃ a, s.appends[i]? = some a ∧ a.stage = .returned l ∧ a.received = bs

theorem run_append (s : Traffic) (ms ns : List Move) : s.run (ms ++ ns) = (s.run ms).run ns :=
  List.foldl_append ..

/-! ## What every move keeps -/

structure Frame (s s' : Traffic) : Prop where
  file : s'.log.log.file = s.log.log.file
  checkpoint : s'.log.checkpoint = s.log.checkpoint
  capacity_le : s.log.capacity ≤ s'.log.capacity
  only : s.disk.OnlyAt s.log.log.file s'.disk
  returned : ∀ i l bs, s.Returned i l bs → s'.Returned i l bs

namespace Frame

theorem refl (s : Traffic) : Frame s s := ⟨rfl, rfl, Nat.le_refl _, .refl, fun _ _ _ h => h⟩

theorem trans {s t u : Traffic} (h : Frame s t) (h' : Frame t u) : Frame s u :=
  ⟨h'.file.trans h.file, h'.checkpoint.trans h.checkpoint, Nat.le_trans h.capacity_le h'.capacity_le,
    h.only.trans (h.file ▸ h'.only), fun i l bs hr => h'.returned i l bs (h.returned i l bs hr)⟩

end Frame

end Traffic

end TwinLog
