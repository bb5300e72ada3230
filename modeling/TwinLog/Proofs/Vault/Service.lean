/-
  TwinLog.Proofs.Vault.Service — one open vault and every call under way in it.

  Any number of adds are under way at once, each in a phase of its own, and all of them
  hold the shared side of one lock. A commit or a rollback takes the exclusive side: it
  begins when no add is under way, no add begins before it ends, and in between it writes
  the content log's header and then the index's. An add that has failed writes both
  headers too, on the shared side. A call into the index may be refused its turn
  (`granted`), and has timed out then.

  What a thread does without letting go of a log is one `Turn`, so a run of several
  threads is a list of turns in any order; a turn that is not possible changes nothing.
  Whenever the process stops, the files are as they are after some turns. Looking a key
  up changes nothing and is no turn.

  `Service.Turned` is all that a turn can do, and `Twin.Moved` all that a part of an add can;
  what turns keep is proved from these, here and in the modules that follow.

  `Service.Stands` is the invariant, `stands_step` its step. The vault opened with
  `Ground`; the headers on disk now say `p` for the content log and cover the directory
  `saved` of the index.
-/

import TwinLog.Proofs.Vault.Opening
import TwinLog.Proofs.Vault.Standing

namespace TwinLog

inductive Phase where
  /-- Past its checks; nothing is reserved yet. -/
  | starting
  /-- This append of the content log is its own. -/
  | appending (slot : Nat)
  | recorded (slot : Nat) (l : Location)
  /-- Failed; both headers are still to be put back. -/
  | failing (e : Fault)
  /-- Failed; the index's header is still to be put back. -/
  | unwinding (e : Fault)
  | failed (e : Fault)

def Phase.active : Phase → Bool
  | .recorded .. | .failed _ => false
  | _ => true

structure Adding where
  key : String
  phase : Phase

structure Twin where
  traffic : Traffic
  index : Gate
  /-- What has written the content log's header, the last first. -/
  contentDeeds : List Deed
  indexDeeds : List Deed

structure Service where
  twin : Twin
  adds : List Adding
  /-- Holds the lock for itself; it has written the content log's header and not yet the index's. -/
  exclusive : Option Deed

inductive Part where
  /-- Its source cannot say how long it is. -/
  | refuse (e : Fault)
  | reserve (size : Nat)
  | room (space : Volume.Space)
  | feed (r : Reading)
  | release
  /-- The append is over: record the key, or fail. -/
  | finish (space : Volume.Space) (granted : Bool)
  | unwindContent
  | unwindIndex (granted : Bool)

inductive Turn where
  | begin (key : String)
  | add (i : Nat) (part : Part)
  | headContent (deed : Deed)
  | headIndex (granted : Bool)

/-- A call that is not granted its turn has waited for too long. -/
def Gate.ask {α : Type} (g : Gate) (granted : Bool) (d : Disk)
    (f : KeyLog → Disk → Except Fault α × KeyLog × Disk) : Except Fault α × Gate × Disk :=
  if granted then g.call d f else (.error (.timedOut g.timeout), g, d)

def Traffic.outcome? (s : Traffic) (slot : Nat) : Option (Except Fault Location) :=
  s.appends[slot]?.bind (·.stage.over?)

namespace Twin

def put (t : Twin) (index : Gate) (disk : Disk) : Twin := { t with index, traffic := { t.traffic with disk } }

def work (t : Twin) (m : Move) : Twin := { t with traffic := t.traffic.step m }

def headContent (t : Twin) (deed : Deed) : Option Twin :=
  match deed.content t.traffic.log t.traffic.disk with
  | .error _ => none
  | .ok disk => some { t.put t.index disk with contentDeeds := deed :: t.contentDeeds }

def headIndex (t : Twin) (deed : Deed) (granted : Bool) : Twin :=
  match t.index.ask granted t.traffic.disk (Gate.storing deed.index) with
  | (.ok (), index, disk) => { t.put index disk with indexDeeds := deed :: t.indexDeeds }
  | (.error _, index, disk) => t.put index disk

def record (t : Twin) (key : String) (slot : Nat) (l : Location) (space : Volume.Space) (granted : Bool) :
    Phase × Twin :=
  match t.index.ask granted t.traffic.disk fun k d => k.add space d key l with
  | (.ok (), index, disk) => (.recorded slot l, t.put index disk)
  | (.error e, index, disk) => (.failing e, t.put index disk)

def move (t : Twin) (key : String) : Phase → Part → Phase × Twin
  | .starting, .refuse e => (.failing e, t)
  | .starting, .reserve size => match t.traffic.log.reserve size with
    | .error e => (.failing e, t)
    | .ok _ => (.appending t.traffic.appends.length, t.work (.reserve size))
  | .appending slot, .room space => (.appending slot, t.work (.room slot space))
  | .appending slot, .feed r => (.appending slot, t.work (.feed slot r))
  | .appending slot, .release => (.appending slot, t.work (.release slot))
  | .appending slot, .finish space granted => match t.traffic.outcome? slot with
    | none => (.appending slot, t)
    | some (.error e) => (.failing e, t)
    | some (.ok l) => t.record key slot l space granted
  | .failing e, .unwindContent => match t.headContent .rollback with
    | none => (.failed e, t)
    | some t => (.unwinding e, t)
  | .unwinding e, .unwindIndex granted => (.failed e, t.headIndex .rollback granted)
  | phase, _ => (phase, t)

/-- All that a part of an add can do. -/
inductive Moved (t : Twin) (key : String) : Phase → Part → Phase → Twin → Prop
  | still (phase : Phase) (part : Part) : Moved t key phase part phase t
  | refused (e : Fault) : Moved t key .starting (.refuse e) (.failing e) t
  | full {size : Nat} {e : Fault} (refusal : t.traffic.log.reserve size = .error e) :
      Moved t key .starting (.reserve size) (.failing e) t
  | reserved {size : Nat} {c : Nat × ContentLog} (range : t.traffic.log.reserve size = .ok c) :
      Moved t key .starting (.reserve size) (.appending t.traffic.appends.length) (t.work (.reserve size))
  /-- A move of the append: room, a reading, or the release. -/
  | filled {slot : Nat} {m : Move} {f : Append → ContentLog → Disk → Append × ContentLog × Disk} (part : Part)
      (acts : ∀ s : Traffic, s.step m = s.act slot f) (quiet : m.heads = false) :
      Moved t key (.appending slot) part (.appending slot) (t.work m)
  | broken {slot : Nat} {space : Volume.Space} {granted : Bool} {e : Fault}
      (outcome : t.traffic.outcome? slot = some (.error e)) :
      Moved t key (.appending slot) (.finish space granted) (.failing e) t
  | returned {slot : Nat} {l : Location} (space : Volume.Space) (granted : Bool)
      (outcome : t.traffic.outcome? slot = some (.ok l)) :
      Moved t key (.appending slot) (.finish space granted) (t.record key slot l space granted).1
        (t.record key slot l space granted).2
  | stuck {e : Fault} (head : t.headContent .rollback = none) :
      Moved t key (.failing e) .unwindContent (.failed e) t
  | headed {e : Fault} {t' : Twin} (head : t.headContent .rollback = some t') :
      Moved t key (.failing e) .unwindContent (.unwinding e) t'
  | unwound (e : Fault) (granted : Bool) :
      Moved t key (.unwinding e) (.unwindIndex granted) (.failed e) (t.headIndex .rollback granted)

theorem move_moved (t : Twin) (key : String) (phase : Phase) (part : Part) :
    t.Moved key phase part (t.move key phase part).1 (t.move key phase part).2 := by
  unfold move
  split
  · exact .refused _
  · split
    · exact .full ‹_›
    · exact .reserved ‹_›
  · exact .filled (f := Append.room _) _ (fun _ => rfl) rfl
  · exact .filled (f := Append.feed _) _ (fun _ => rfl) rfl
  · exact .filled (f := Append.release) _ (fun _ => rfl) rfl
  · split
    · exact .still ..
    · exact .broken ‹_›
    · exact .returned _ _ ‹_›
  · split
    · exact .stuck ‹_›
    · exact .headed ‹_›
  · exact .unwound ..
  · exact .still ..

end Twin

namespace Service

def ofLogs (l : Logs) (d : Disk) : Service := ⟨⟨.idle l.content d, l.index, [], []⟩, [], none⟩

def step (s : Service) : Turn → Service
  | .begin key => if key = "" ∨ s.exclusive.isSome then s else { s with adds := s.adds ++ [⟨key, .starting⟩] }
  | .add i part => match s.adds[i]? with
    | none => s
    | some a =>
      let (phase, twin) := s.twin.move a.key a.phase part
      { s with twin, adds := s.adds.set i { a with phase } }
  | .headContent deed =>
    if s.exclusive.isSome ∨ s.adds.any (·.phase.active) then s
    else match s.twin.headContent deed with
      | none => s
      | some twin => { s with twin, exclusive := some deed }
  | .headIndex granted => match s.exclusive with
    | none => s
    | some deed => { s with twin := s.twin.headIndex deed granted, exclusive := none }

def run (s : Service) (turns : List Turn) : Service := turns.foldl step s

theorem run_append (s : Service) (turns more : List Turn) : s.run (turns ++ more) = (s.run turns).run more :=
  List.foldl_append ..

/-- All that a turn can do. -/
inductive Turned (s : Service) : Turn → Service → Prop
  | still (turn : Turn) : Turned s turn s
  | begun {key : String} (named : key ≠ "") (shared : s.exclusive = none) :
      Turned s (.begin key) { s with adds := s.adds ++ [⟨key, .starting⟩] }
  | moved {i : Nat} {a : Adding} (add : s.adds[i]? = some a) (part : Part) :
      Turned s (.add i part) ⟨(s.twin.move a.key a.phase part).2,
        s.adds.set i { a with phase := (s.twin.move a.key a.phase part).1 }, s.exclusive⟩
  | entered {deed : Deed} {t : Twin} (shared : s.exclusive = none) (quiet : ∀ a ∈ s.adds, a.phase.active = false)
      (head : s.twin.headContent deed = some t) :
      Turned s (.headContent deed) { s with twin := t, exclusive := some deed }
  | left {deed : Deed} (exclusive : s.exclusive = some deed) (granted : Bool) :
      Turned s (.headIndex granted) { s with twin := s.twin.headIndex deed granted, exclusive := none }

theorem step_moved {s : Service} {i : Nat} {a : Adding} (hi : s.adds[i]? = some a) (part : Part) :
    s.step (.add i part) = ⟨(s.twin.move a.key a.phase part).2,
      s.adds.set i { a with phase := (s.twin.move a.key a.phase part).1 }, s.exclusive⟩ := by
  simp only [step, hi]

theorem step_turned (s : Service) (turn : Turn) : s.Turned turn (s.step turn) := by
  cases turn with
  | begin key =>
    dsimp only [step]
    split
    · exact .still _
    · rename_i hfree
      obtain ⟨hkey, hshared⟩ := not_or.mp hfree
      exact .begun hkey (Option.not_isSome_iff_eq_none.mp hshared)
  | add i part =>
    cases hi : s.adds[i]? with
    | none =>
      have hstep : s.step (.add i part) = s := by simp only [step, hi]
      rw [hstep]
      exact .still _
    | some a =>
      rw [step_moved hi]
      exact .moved hi part
  | headContent deed =>
    dsimp only [step]
    split
    · exact .still _
    rename_i hfree
    split
    · exact .still _
    rename_i t ht
    obtain ⟨hshared, hquiet⟩ := not_or.mp hfree
    refine .entered (Option.not_isSome_iff_eq_none.mp hshared) ?_ ht
    intro a ha
    exact Bool.eq_false_iff.mpr fun hactive => hquiet (List.any_eq_true.mpr ⟨a, ha, hactive⟩)
  | headIndex granted =>
    dsimp only [step]
    split
    · exact .still _
    · exact .left ‹_› granted

/-- An add has returned, and its content was `b.bytes`. -/
def Recorded (s : Service) (b : Blob) : Prop :=
  ∃ (i slot : Nat), s.adds[i]? = some ⟨b.key, .recorded slot b.location⟩ ∧
    s.twin.traffic.Returned slot b.location b.bytes

end Service

/-- All content that the directory names lies below `p`. -/
def Directory.Covered (dir : Directory) (p : Nat) : Prop :=
  ∀ e ∈ dir, e.location.size = 0 ∨ e.location.finish ≤ p

/-- What a vault opened with: its two files, the directory, where the records of that end,
    the index's cursor, and the content log's cursor and bytes. -/
structure Ground where
  storage : FileId
  index : FileId
  opening : Directory
  stop : Nat
  mark : Nat
  base : Nat
  first : Image

/-- The two logs, with `p` and `saved` in their headers on disk. -/
structure Twin.Sound (g : Ground) (p : Nat) (saved : Directory) (t : Twin) : Prop where
  storage_file : t.traffic.log.log.file = g.storage
  index_file : t.index.index.log.file = g.index
  apart : t.traffic.log.log.file ≠ t.index.index.log.file
  free : t.index.held = none
  content : t.traffic.Tiled headSize g.base g.first
  checkpoint : t.traffic.log.checkpoint = g.base
  mark : t.index.index.checkpoint = g.mark
  old : g.opening.Covered g.base
  head : (t.traffic.disk.image t.traffic.log.log.file).Headed p
  base_le : g.base ≤ p
  le : p ≤ t.traffic.log.capacity
  index : t.index.index.Steady g.opening g.stop saved t.traffic.disk
  committed : t.contentDeeds.head? = some .commit → saved.Covered p
  undone : t.contentDeeds.head? ≠ some .commit → p = g.base
  kept : t.indexDeeds.head? ≠ some .commit → saved = g.opening
  after : t.contentDeeds = [] → saved = g.opening

structure Service.Stands (g : Ground) (p : Nat) (saved : Directory) (s : Service) : Prop where
  twin : s.twin.Sound g p saved
  listed : ∀ e ∈ s.twin.index.index.directory, e ∈ g.opening ∨ ∃ bs, s.Recorded (Blob.mk e.key e.location bs)
  quiet : s.exclusive.isSome → ∀ a ∈ s.adds, a.phase.active = false
  ready : s.exclusive = some .commit →
    s.twin.contentDeeds.head? = some .commit ∧ s.twin.index.index.directory.Covered p

namespace Directory.Covered

variable {dir more : Directory} {p q : Nat}

theorem mono (h : dir.Covered p) (hpq : p ≤ q) : dir.Covered q := by
  intro e he
  exact (h e he).imp_right fun hle => Nat.le_trans hle hpq

theorem sub (h : dir.Covered p) (hsub : more ⊆ dir) : more.Covered p := fun e he => h e (hsub he)

end Directory.Covered

namespace KeyLog.Steady

variable {opening saved : Directory} {stop : Nat} {k : KeyLog} {d : Disk}

theorem saved_sub (h : Steady opening stop saved k d) : saved ⊆ k.directory := by
  obtain ⟨kept, rest, middle, hdir, rfl, -⟩ := h.rows
  rw [hdir]
  exact List.subset_append_left ..

theorem opening_sub (h : Steady opening stop saved k d) : opening ⊆ saved := by
  obtain ⟨kept, rest, middle, -, rfl, -⟩ := h.rows
  exact List.subset_append_left ..

end KeyLog.Steady

/-! ## Writing a header -/

namespace Deed

def cursor (c : ContentLog) : Deed → Nat
  | .commit => min c.cursor c.capacity
  | .rollback => c.checkpoint

def saves (opening : Directory) (k : KeyLog) : Deed → Directory
  | .commit => k.directory
  | .rollback => opening

theorem content_ok {deed : Deed} {c : ContentLog} {d d' : Disk} (hm : c.log.Mounted d)
    (h : deed.content c d = .ok d') : c.log.Mounted d' ∧ d.OnlyAt c.log.file d' ∧
      (headSize ≤ deed.cursor c → (d'.image c.log.file).Headed (deed.cursor c)) ∧
      Image.Keeps headSize c.capacity (d.image c.log.file) (d'.image c.log.file) := by
  cases deed with
  | commit => exact ContentLog.commit_ok hm h
  | rollback => exact Log.storeCursor_ok hm h

theorem index_ok {deed : Deed} {opening saved : Directory} {stop : Nat} {k : KeyLog} {d d' : Disk}
    (h : k.Steady opening stop saved d) (hd : deed.index k d = .ok d') :
    k.Steady opening stop (deed.saves opening k) d' ∧ d.OnlyAt k.log.file d' := by
  cases deed with
  | commit => exact h.commit hd
  | rollback => exact h.rollback hd

end Deed

/-! ## The two logs -/

/-- All that recording a key can do. -/
theorem Twin.record_cases {t : Twin} {opening saved : Directory} {stop : Nat} (hfree : t.index.held = none)
    (hsteady : t.index.index.Steady opening stop saved t.traffic.disk) (key : String) (slot : Nat) (l : Location)
    (space : Volume.Space) (granted : Bool) : ∃ index d, (t.record key slot l space granted).2 = t.put index d ∧
      index.held = none ∧ KeyLog.Grown t.index.index t.traffic.disk index.index d ∧
      index.index.Steady opening stop saved d ∧
      ((t.record key slot l space granted).1 = .recorded slot l ∧ key ∉ t.index.index.directory.keys ∧
          (∃ o, index.index.directory = t.index.index.directory ++ [⟨key, o, l⟩]) ∨
        (∃ e, (t.record key slot l space granted).1 = .failing e) ∧
          index.index.directory = t.index.index.directory) := by
  unfold record Gate.ask
  cases granted with
  | false =>
    exact ⟨t.index, t.traffic.disk, rfl, hfree, ⟨rfl, rfl, Nat.le_refl _, .refl⟩, hsteady, .inr ⟨⟨_, rfl⟩, rfl⟩⟩
  | true =>
    rw [if_pos rfl, Gate.call_free hfree]
    rcases hk : t.index.index.add space t.traffic.disk key l with ⟨r, k, d⟩
    obtain ⟨hsteady', hgrown, hcases⟩ := hsteady.add hk
    refine ⟨t.index.passed k, d, ?_, hfree, hgrown, hsteady', ?_⟩
    · cases r <;> rfl
    · rcases hcases with ⟨rfl, -, hnew, hdir⟩ | ⟨⟨e, rfl⟩, hdir⟩
      · exact .inl ⟨rfl, hnew, _, hdir⟩
      · exact .inr ⟨⟨e, rfl⟩, hdir⟩

/-- Writing the index's header: it is left as it is, or it covers what the deed saves. -/
theorem Twin.headIndex_cases {t : Twin} {opening saved : Directory} {stop : Nat} (hfree : t.index.held = none)
    (hsteady : t.index.index.Steady opening stop saved t.traffic.disk) (deed : Deed) (granted : Bool) :
    ∃ index d, index.held = none ∧ index.index = t.index.index ∧
      (t.headIndex deed granted = t.put index t.traffic.disk ∨
        t.headIndex deed granted = { t.put index d with indexDeeds := deed :: t.indexDeeds } ∧
          t.traffic.disk.OnlyAt t.index.index.log.file d ∧
          t.index.index.Steady opening stop (deed.saves opening t.index.index) d) := by
  unfold headIndex Gate.ask
  cases granted with
  | false => exact ⟨t.index, t.traffic.disk, hfree, rfl, .inl rfl⟩
  | true =>
    rw [if_pos rfl, Gate.call_free hfree, Gate.storing]
    cases hd : deed.index t.index.index t.traffic.disk with
    | error e => exact ⟨t.index.passed t.index.index, t.traffic.disk, hfree, rfl, .inl rfl⟩
    | ok d =>
      obtain ⟨hsteady', ho⟩ := Deed.index_ok hsteady hd
      exact ⟨t.index.passed t.index.index, d, hfree, rfl, .inr ⟨rfl, ho, hsteady'⟩⟩

namespace Twin.Sound

variable {g : Ground} {p : Nat} {saved : Directory} {t t' : Twin}

theorem work (h : t.Sound g p saved) {m : Move} (hm : m.heads = false) :
    (t.work m).Sound g p saved ∧ t.traffic.Frame (t.work m).traffic := by
  have hstep := Traffic.tiled_step h.content m fun hh => nomatch hm.symm.trans hh
  have hframe := Traffic.frame_step h.content m
  -- seen from now on, the header stays too
  have hnow : t.traffic.Tiled 0 g.base (t.traffic.disk.image t.traffic.log.log.file) :=
    { h.content with below := .refl }
  have hkeep := (Traffic.tiled_step hnow m fun hh => nomatch hm.symm.trans hh).below
  have hhead := h.head.congr (hkeep.mono (Nat.le_refl _) h.content.head_le)
  refine ⟨?_, hframe⟩
  exact { h with
    storage_file := hframe.file.trans h.storage_file
    apart := hframe.file ▸ h.apart
    content := hstep
    checkpoint := hframe.checkpoint.trans h.checkpoint
    head := hhead
    le := Nat.le_trans h.le hframe.capacity_le
    index := h.index.elsewhere hframe.only (Ne.symm h.apart) }

theorem put (h : t.Sound g p saved) {index : Gate} {d : Disk} {saved' : Directory} {deeds : List Deed}
    (ho : t.traffic.disk.OnlyAt t.index.index.log.file d) (hfile : index.index.log.file = t.index.index.log.file)
    (hmark : index.index.checkpoint = t.index.index.checkpoint) (hfree : index.held = none)
    (hindex : index.index.Steady g.opening g.stop saved' d)
    (hcovered : t.contentDeeds.head? = some .commit → saved'.Covered p)
    (hkept : deeds.head? ≠ some .commit → saved' = g.opening)
    (hafter : t.contentDeeds = [] → saved' = g.opening) :
    Sound g p saved' { t.put index d with indexDeeds := deeds } := by
  have himage : d.image t.traffic.log.log.file = t.traffic.disk.image t.traffic.log.log.file :=
    ho.others _ h.apart
  have hmounted := h.content.mounted.elsewhere ho h.apart
  exact { h with
    index_file := hfile.trans h.index_file
    apart := hfile ▸ h.apart
    free := hfree
    content := h.content.onDisk (Nat.le_refl _) hmounted (by rw [himage]; exact .refl)
    mark := hmark.trans h.mark
    head := himage ▸ h.head
    index := hindex
    committed := hcovered
    kept := hkept
    after := hafter }

theorem record (h : t.Sound g p saved) (key : String) (slot : Nat) (l : Location) (space : Volume.Space)
    (granted : Bool) : let r := t.record key slot l space granted
    r.2.Sound g p saved ∧ r.2.traffic.appends = t.traffic.appends ∧
      (r.1 = .recorded slot l ∧ (∃ o, r.2.index.index.directory = t.index.index.directory ++ [⟨key, o, l⟩]) ∨
        r.2.index.index.directory = t.index.index.directory) := by
  intro r
  obtain ⟨index, d, hr, hfree, hgrown, hsteady, hcases⟩ := record_cases h.free h.index key slot l space granted
  have hput : (t.put index d).Sound g p saved :=
    h.put hgrown.only hgrown.file hgrown.checkpoint hfree hsteady h.committed h.kept h.after
  rw [show r.2 = t.put index d from hr]
  refine ⟨hput, rfl, ?_⟩
  rcases hcases with ⟨hphase, -, o, hdir⟩ | ⟨-, hdir⟩
  · exact .inl ⟨hphase, o, hdir⟩
  · exact .inr hdir

/-- The content log's header is written: from now on it covers what the index names, if
    this was a commit. -/
theorem headContent (h : t.Sound g p saved) {deed : Deed} (ht : t.headContent deed = some t')
    (hall : t.index.index.directory.Covered (min t.traffic.log.cursor t.traffic.log.capacity)) :
    t'.Sound g (deed.cursor t.traffic.log) saved ∧ t'.traffic.appends = t.traffic.appends ∧ t'.index = t.index ∧
      t'.contentDeeds = deed :: t.contentDeeds := by
  unfold Twin.headContent at ht
  split at ht
  · cases ht
  rename_i d hd
  cases ht
  obtain ⟨hm, ho, hhead, hk⟩ := Deed.content_ok h.content.mounted hd
  have hcursor := h.content.base_le_cursor
  have hcap := h.content.base_le
  have hcheck := h.checkpoint
  have hlo : g.base ≤ deed.cursor t.traffic.log := by
    cases deed with
    | commit => exact Nat.le_min.mpr ⟨hcursor, hcap⟩
    | rollback => exact Nat.le_of_eq hcheck.symm
  have hhi : deed.cursor t.traffic.log ≤ t.traffic.log.capacity := by
    cases deed with
    | commit => exact Nat.min_le_right ..
    | rollback => exact Nat.le_trans (Nat.le_of_eq hcheck) hcap
  refine ⟨?_, rfl, rfl, rfl⟩
  exact { h with
    content := h.content.onDisk (Nat.le_refl _) hm hk
    head := hhead (Nat.le_trans h.content.head_le hlo)
    base_le := hlo
    le := hhi
    index := h.index.elsewhere ho (Ne.symm h.apart)
    committed := by
      intro hc
      cases deed with
      | commit => exact hall.sub h.index.saved_sub
      | rollback => cases hc
    undone := by
      intro hc
      cases deed with
      | commit => exact absurd rfl hc
      | rollback => exact hcheck
    after := fun hc => absurd hc (List.cons_ne_nil _ _) }

theorem headIndex (h : t.Sound g p saved) (deed : Deed) (granted : Bool)
    (hready : deed = .commit → t.contentDeeds.head? = some .commit ∧ t.index.index.directory.Covered p) :
    ∃ saved', (t.headIndex deed granted).Sound g p saved' ∧
      (t.headIndex deed granted).traffic.appends = t.traffic.appends ∧
      (t.headIndex deed granted).index.index = t.index.index := by
  obtain ⟨index, d, hfree, hindex, hleft | ⟨hwritten, ho, hsteady⟩⟩ := headIndex_cases h.free h.index deed granted
  · rw [hleft]
    have hput := h.put .refl (by rw [hindex]) (by rw [hindex]) hfree (hindex ▸ h.index) h.committed h.kept h.after
    exact ⟨saved, hput, rfl, hindex⟩
  rw [hwritten]
  have hopening := h.index.opening_sub
  have hcovered : t.contentDeeds.head? = some .commit → (deed.saves g.opening t.index.index).Covered p := by
    intro hc
    cases deed with
    | commit => exact (hready rfl).2
    | rollback => exact (h.committed hc).sub hopening
  have hafter : t.contentDeeds = [] → deed.saves g.opening t.index.index = g.opening := by
    intro hc
    cases deed with
    | commit =>
      have := (hready rfl).1
      rw [hc] at this
      cases this
    | rollback => rfl
  have hkept : (deed :: t.indexDeeds).head? ≠ some .commit →
      deed.saves g.opening t.index.index = g.opening := by
    intro hk
    cases deed with
    | commit => exact absurd rfl hk
    | rollback => rfl
  have hput := h.put ho (by rw [hindex]) (by rw [hindex]) hfree (hindex ▸ hsteady) hcovered hkept hafter
  exact ⟨_, hput, rfl, hindex⟩

end Twin.Sound

/-- Who has returned stands in the list of appends alone. -/
theorem Traffic.Returned.congr {s s' : Traffic} (h : s'.appends = s.appends) {i : Nat} {l : Location}
    {bs : List UInt8} (hr : s.Returned i l bs) : s'.Returned i l bs := by
  obtain ⟨a, ha, hrest⟩ := hr
  exact ⟨a, h ▸ ha, hrest⟩

theorem Traffic.returned_of_outcome {s : Traffic} {slot : Nat} {l : Location}
    (h : s.outcome? slot = some (.ok l)) : ∃ bs, s.Returned slot l bs := by
  obtain ⟨a, ha, hover⟩ := Option.bind_eq_some_iff.mp h
  exact ⟨a.received, a, ha, Stage.returned_of_over hover, rfl⟩

/-! ## The turns -/

namespace Service

variable {g : Ground} {p : Nat} {saved : Directory} {s : Service} {i : Nat} {a : Adding}

namespace Stands

/-- All that is recorded lies in the file, below the cursor. -/
theorem covered (h : s.Stands g p saved) :
    s.twin.index.index.directory.Covered (min s.twin.traffic.log.cursor s.twin.traffic.log.capacity) := by
  intro e he
  have hcontent := h.twin.content
  rcases h.listed e he with ho | ⟨bs, i, slot, -, hr⟩
  · exact (h.twin.old e ho).imp_right fun hle =>
      Nat.le_min.mpr ⟨Nat.le_trans hle hcontent.base_le_cursor, Nat.le_trans hle hcontent.base_le⟩
  · obtain ⟨-, hfits, -, hheld⟩ := Traffic.returned_spec hcontent hr
    by_cases h0 : e.location.size = 0
    · exact .inl h0
    · exact .inr (Nat.le_min.mpr ⟨(hcontent.held_bounds (hheld (Nat.pos_of_ne_zero h0))).2.2, hfits⟩)

/-- While an add is under way nobody holds the lock for himself. -/
theorem shared (h : s.Stands g p saved) (hi : s.adds[i]? = some a) (hactive : a.phase.active = true) :
    s.exclusive = none := by
  cases he : s.exclusive with
  | none => rfl
  | some deed =>
    have hquiet := h.quiet (by rw [he]; rfl) a (List.mem_of_getElem? hi)
    cases hactive.symm.trans hquiet

theorem moved (h : s.Stands g p saved) (hi : s.adds[i]? = some a) (hactive : a.phase.active = true) {t : Twin}
    {phase : Phase} {p' : Nat} {saved' : Directory} (ht : t.Sound g p' saved')
    (hr : ∀ slot l bs, s.twin.traffic.Returned slot l bs → t.traffic.Returned slot l bs)
    (hdir : ∀ e ∈ t.index.index.directory, e ∈ s.twin.index.index.directory ∨
      ∃ slot bs, phase = .recorded slot e.location ∧ e.key = a.key ∧ t.traffic.Returned slot e.location bs) :
    Stands g p' saved' ⟨t, s.adds.set i { a with phase }, s.exclusive⟩ := by
  have hshared := h.shared hi hactive
  refine ⟨ht, ?_, ?_, ?_⟩
  · intro e he
    rcases hdir e he with hold | ⟨slot, bs, rfl, hkey, hret⟩
    · refine (h.listed e hold).imp_right ?_
      rintro ⟨bs, j, slot, hj, hret⟩
      refine ⟨bs, j, slot, ?_, hr _ _ _ hret⟩
      have hij : i ≠ j := by
        rintro rfl
        cases hi.symm.trans hj
        cases hactive
      show (s.adds.set i _)[j]? = _
      rw [List.getElem?_set_ne hij]
      exact hj
    · refine .inr ⟨bs, i, slot, ?_, hret⟩
      show (s.adds.set i _)[i]? = _
      rw [List.getElem?_set_self (List.getElem?_eq_some_iff.mp hi).1, hkey]
  · intro hx
    rw [hshared] at hx
    cases hx
  · intro hx
    rw [hshared] at hx
    cases hx

theorem moved_alone (h : s.Stands g p saved) (hi : s.adds[i]? = some a) (hactive : a.phase.active = true)
    (phase : Phase) : Stands g p saved ⟨s.twin, s.adds.set i { a with phase }, s.exclusive⟩ :=
  h.moved hi hactive h.twin (fun _ _ _ hr => hr) fun _ he => .inl he

theorem moved_work (h : s.Stands g p saved) (hi : s.adds[i]? = some a) (hactive : a.phase.active = true)
    (phase : Phase) {m : Move} (hm : m.heads = false) :
    Stands g p saved ⟨s.twin.work m, s.adds.set i { a with phase }, s.exclusive⟩ := by
  obtain ⟨hsound, hframe⟩ := h.twin.work hm
  exact h.moved hi hactive hsound hframe.returned fun _ he => .inl he

theorem move (h : s.Stands g p saved) (hi : s.adds[i]? = some a) (part : Part) :
    let r := s.twin.move a.key a.phase part
    ∃ p' saved', Stands g p' saved' ⟨r.2, s.adds.set i { a with phase := r.1 }, s.exclusive⟩ := by
  obtain ⟨key, phase⟩ := a
  have hmove := s.twin.move_moved key phase part
  dsimp only
  generalize (s.twin.move key phase part).1 = phase', (s.twin.move key phase part).2 = t at hmove ⊢
  cases hmove with
  | still =>
    obtain ⟨hlt, hget⟩ := List.getElem?_eq_some_iff.mp hi
    refine ⟨p, saved, ?_⟩
    rw [show s.adds.set i ⟨key, phase⟩ = s.adds by rw [← hget, List.set_getElem_self]]
    exact h
  | refused => exact ⟨p, saved, h.moved_alone hi rfl _⟩
  | full => exact ⟨p, saved, h.moved_alone hi rfl _⟩
  | reserved => exact ⟨p, saved, h.moved_work hi rfl _ rfl⟩
  | filled part acts quiet => exact ⟨p, saved, h.moved_work hi rfl _ quiet⟩
  | broken => exact ⟨p, saved, h.moved_alone hi rfl _⟩
  | @returned slot l space granted outcome =>
    obtain ⟨bs, hret⟩ := Traffic.returned_of_outcome outcome
    obtain ⟨hsound, happends, hcases⟩ := h.twin.record key slot l space granted
    refine ⟨p, saved, h.moved hi rfl hsound (fun _ _ _ hr => hr.congr happends) ?_⟩
    intro e he
    rcases hcases with ⟨hphase, o, hdir⟩ | hdir
    · rw [hdir] at he
      rcases List.mem_append.mp he with he | he
      · exact .inl he
      · cases List.mem_singleton.mp he
        exact .inr ⟨slot, bs, hphase, rfl, hret.congr happends⟩
    · rw [hdir] at he
      exact .inl he
  | stuck => exact ⟨p, saved, h.moved_alone hi rfl _⟩
  | headed head =>
    obtain ⟨hsound, happends, hindex, -⟩ := h.twin.headContent head h.covered
    exact ⟨_, saved, h.moved hi rfl hsound (fun _ _ _ hr => hr.congr happends) fun e he => .inl (hindex ▸ he)⟩
  | unwound e granted =>
    obtain ⟨saved', hsound, happends, hindex⟩ := h.twin.headIndex .rollback granted (fun hd => nomatch hd)
    exact ⟨p, saved', h.moved hi rfl hsound (fun _ _ _ hr => hr.congr happends) fun e he => .inl (hindex ▸ he)⟩

end Stands

theorem stands_step (h : s.Stands g p saved) (turn : Turn) :
    ∃ p' saved', (s.step turn).Stands g p' saved' := by
  have hturn := s.step_turned turn
  generalize s.step turn = s' at hturn ⊢
  cases hturn with
  | still => exact ⟨p, saved, h⟩
  | begun named shared =>
    refine ⟨p, saved, h.twin, ?_, ?_, h.ready⟩
    · intro e he
      refine (h.listed e he).imp_right ?_
      rintro ⟨bs, j, slot, hj, hret⟩
      exact ⟨bs, j, slot, getElem?_snoc_of_some hj, hret⟩
    · intro hx
      have hx : s.exclusive.isSome = true := hx
      rw [shared] at hx
      cases hx
  | moved add part => exact h.move add part
  | @entered deed t shared quiet head =>
    obtain ⟨hsound, happends, hindex, hdeeds⟩ := h.twin.headContent head h.covered
    refine ⟨_, saved, hsound, ?_, fun _ => quiet, ?_⟩
    · intro e he
      refine (h.listed e (hindex ▸ he)).imp_right ?_
      rintro ⟨bs, j, slot, hj, hret⟩
      exact ⟨bs, j, slot, hj, hret.congr happends⟩
    · intro hx
      cases hx
      show t.contentDeeds.head? = _ ∧ t.index.index.directory.Covered _
      rw [hdeeds, hindex]
      exact ⟨rfl, h.covered⟩
  | @left deed hdeed granted =>
    obtain ⟨saved', hsound, happends, hindex⟩ := h.twin.headIndex deed granted fun hd => h.ready (hd ▸ hdeed)
    refine ⟨p, saved', hsound, ?_, fun hx => (nomatch hx), fun hx => (nomatch hx)⟩
    intro e he
    refine (h.listed e (hindex ▸ he)).imp_right ?_
    rintro ⟨bs, j, slot, hj, hret⟩
    exact ⟨bs, j, slot, hj, hret.congr happends⟩

theorem stands_run (h : s.Stands g p saved) (turns : List Turn) :
    ∃ p' saved', (s.run turns).Stands g p' saved' := by
  induction turns generalizing s p saved with
  | nil => exact ⟨p, saved, h⟩
  | cons turn turns ih =>
    obtain ⟨p', saved', hnext⟩ := stands_step h turn
    exact ih hnext

/-! ## From the opening on -/

/-- A vault that was just opened on two different files stands on what it has found there. -/
theorem stands_opened {v v' u w : Volume} {settings : Settings} {c : ContentLog} {k : KeyLog} (hv : v.Sound)
    (h : Vault.Parts v settings u c w k v') (hne : c.log.file ≠ k.log.file) (hold : k.directory.Covered c.cursor)
    (timeout : Duration) : ∃ stop, Stands
      ⟨c.log.file, k.log.file, k.directory, stop, k.checkpoint, c.cursor, v'.disk.image c.log.file⟩ c.cursor
      k.directory (ofLogs ⟨c, Gate.ofIndex k timeout⟩ v'.disk) := by
  have hleaves := h.leaves hv hne
  obtain ⟨stop, hsteady⟩ := hleaves.index
  refine ⟨stop, ?_, fun e he => .inl he, fun hx => (nomatch hx), fun hx => (nomatch hx)⟩
  exact {
    storage_file := rfl
    index_file := rfl
    apart := hne
    free := rfl
    content := hleaves.resting.tiled headSize
    checkpoint := hleaves.checkpoint
    mark := rfl
    old := hold
    head := hleaves.headed
    base_le := Nat.le_refl _
    le := hleaves.resting.cursor_le
    index := hsteady
    committed := fun _ => hold
    undone := fun _ => rfl
    kept := fun _ => rfl
    after := fun _ => rfl }

end Service

/-! ## A commit or a rollback that nobody disturbs -/

namespace Twin

variable {t t' : Twin} {deed : Deed}

def logs (t : Twin) : Logs × Disk := (⟨t.traffic.log, t.index⟩, t.traffic.disk)

theorem logs_refused (h : t.headContent deed = none) : ∃ e, deed.logs t.logs.1 t.logs.2 = (.error e, t.logs) := by
  cases hd : deed.content t.traffic.log t.traffic.disk with
  | error e => exact ⟨e, deed.logs_refused hd⟩
  | ok disk => simp only [headContent, hd, reduceCtorEq] at h

theorem logs_headIndex (t : Twin) (deed : Deed) :
    (t.headIndex deed true).logs = (⟨t.traffic.log, (t.index.call t.traffic.disk (Gate.storing deed.index)).2.1⟩,
      (t.index.call t.traffic.disk (Gate.storing deed.index)).2.2) := by
  unfold headIndex Gate.ask
  rw [if_pos rfl]
  obtain ⟨r, index, disk⟩ := t.index.call t.traffic.disk (Gate.storing deed.index)
  cases r <;> rfl

theorem logs_headed (h : t.headContent deed = some t') :
    deed.logs t.logs.1 t.logs.2 =
      ((t'.index.call t'.traffic.disk (Gate.storing deed.index)).1, (t'.headIndex deed true).logs) := by
  cases hd : deed.content t.traffic.log t.traffic.disk with
  | error e => simp only [headContent, hd, reduceCtorEq] at h
  | ok disk =>
    simp only [headContent, hd] at h
    cases h
    rw [logs_headIndex]
    exact deed.logs_headed hd

end Twin

/-- Both header writes of a deed, where no call is under way: none if the first one is refused. -/
theorem Service.run_heads_cases (s : Service) (hx : s.exclusive = none) (hq : s.adds.any (·.phase.active) = false)
    (deed : Deed) :
    s.twin.headContent deed = none ∧ s.run [.headContent deed, .headIndex true] = s ∨
      ∃ t, s.twin.headContent deed = some t ∧
        s.run [.headContent deed, .headIndex true] = { s with twin := t.headIndex deed true } := by
  have hfree : ¬ (s.exclusive.isSome ∨ s.adds.any (·.phase.active)) := by simp [hx, hq]
  cases ht : s.twin.headContent deed with
  | none =>
    have hstep : s.step (.headContent deed) = s := by simp only [step, if_neg hfree, ht]
    refine .inl ⟨rfl, ?_⟩
    show (s.step (.headContent deed)).step (.headIndex true) = s
    rw [hstep]
    simp only [step, hx]
  | some t =>
    have hstep : s.step (.headContent deed) = { s with twin := t, exclusive := some deed } := by
      simp only [step, if_neg hfree, ht]
    refine .inr ⟨t, rfl, ?_⟩
    show (s.step (.headContent deed)).step (.headIndex true) = _
    rw [hstep, hx]
    rfl

/-- A commit and a rollback are their two header writes. -/
theorem Service.run_heads (s : Service) (hx : s.exclusive = none) (hq : s.adds.any (·.phase.active) = false)
    (deed : Deed) :
    (s.run [.headContent deed, .headIndex true]).twin.logs = (deed.logs s.twin.logs.1 s.twin.logs.2).2 := by
  rcases s.run_heads_cases hx hq deed with ⟨ht, hrun⟩ | ⟨t, ht, hrun⟩
  · obtain ⟨e, hrefused⟩ := Twin.logs_refused ht
    rw [hrun, hrefused]
  · rw [hrun, Twin.logs_headed ht]

end TwinLog
