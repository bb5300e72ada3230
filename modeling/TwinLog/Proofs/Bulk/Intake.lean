/-
  TwinLog.Proofs.Bulk.Intake — adds under way, each with the file it reads from.

  `Intake` is a `Service` whose adds have their sources with them: what an add does next is
  then settled by how far it is (`Twin.next`), and only the free bytes are not. While no file
  changes but the two logs, an add takes the bytes of its file from the first to the last, or
  fails (`Feeds`): one that is recorded has all of them (`Fed.recorded`). What other adds do
  does not concern it, since each has an append of its own.
-/

import TwinLog.Proofs.Bulk.Crew
import TwinLog.Proofs.Vault.Retries
import TwinLog.Proofs.Vault.Stock

namespace TwinLog

/-! ## What one part of an add leaves alone -/

namespace Twin

theorem move_appends (t : Twin) (key : String) (phase : Phase) (part : Part) {n : Nat} {a : Append}
    (hn : phase.slot? ≠ some n) (ha : t.traffic.appends[n]? = some a) :
    (t.move key phase part).2.traffic.appends[n]? = some a := by
  have hmove := t.move_moved key phase part
  generalize (t.move key phase part).1 = phase', (t.move key phase part).2 = t' at hmove ⊢
  cases hmove with
  | @reserved size c range =>
    simp only [work, Traffic.step, range]
    exact getElem?_snoc_of_some ha
  | @filled slot m f part acts quiet =>
    have hne : slot ≠ n := fun h => hn (congrArg some h)
    simp only [work, acts, Traffic.act]
    split
    · exact ha
    · exact (List.getElem?_set_ne hne).trans ha
  | @returned slot l space granted outcome =>
    rw [(t.record_directory key slot l space granted).1]
    exact ha
  | headed head =>
    rw [(headContent_move head).1]
    simp only [Deed.move, Traffic.step, Traffic.head]
    split <;> exact ha
  | unwound e granted =>
    rw [(t.headIndex_directory .rollback granted).2]
    exact ha
  | _ => exact ha

end Twin

/-! ## Reading a file -/

namespace Volume

theorem openToRead_congr {v v' : Volume} (h : v'.nodes = v.nodes) (path : String) :
    v'.openToRead path = v.openToRead path := by
  unfold openToRead lookup nodeAt node
  rw [walkFrom_congr h, h]

def bytesOf (v : Volume) (f : FileId) : List UInt8 := (v.disk.image f).read 0 (v.disk.image f).length

/-- `received` is how the bytes of `opened` begin; a folder has none. -/
def Starts (v : Volume) (received : List UInt8) : Opened → Prop
  | .file f => received.length ≤ (v.disk.image f).length ∧ received = (v.disk.image f).read 0 received.length
  | .folder => received = []

theorem starts_nil (v : Volume) (opened : Opened) : v.Starts [] opened := by
  cases opened with
  | file f => exact ⟨Nat.zero_le _, rfl⟩
  | folder => rfl

theorem readPart_whole {v : Volume} {path : String} {f : FileId} (h : v.openToRead path = .ok (.file f)) :
    v.readPart path 0 none = .ok (v.bytesOf f) := by
  simp only [readPart, h, Option.getD_none, Image.readUpTo, Nat.sub_zero, Nat.min_self, bytesOf]

end Volume

def Opened.source : Opened → Nat → Source
  | .file f, n => .file f n
  | .folder, _ => .folder

theorem Source.openAt_start (v : Volume) (path : String) :
    Source.openAt v path 0 = (v.openToRead path).map fun opened => opened.source 0 := by
  unfold Source.openAt
  cases v.openToRead path with
  | error e => rfl
  | ok opened => cases opened <;> rfl

/-- A file is read on from where it was read to. -/
theorem Opened.read_file {v : Volume} {d : Disk} {f : FileId} {received : List UInt8}
    (hd : d.image f = v.disk.image f) (h : v.Starts received (.file f)) (n : Nat) :
    ∃ bs, ((Opened.file f).source received.length).read d n = (.ok bs, (Opened.file f).source (received ++ bs).length) ∧
      bs.length ≤ n ∧ v.Starts (received ++ bs) (.file f) := by
  obtain ⟨hle, hreceived⟩ := h
  refine ⟨(d.image f).readUpTo received.length n, ?_, ?_, ?_, ?_⟩
  · rw [List.length_append]
    rfl
  · rw [Image.readUpTo, Image.length_read]
    exact Nat.min_le_left ..
  · rw [List.length_append, hd, Image.readUpTo, Image.length_read]
    omega
  · rw [List.length_append, hd, Image.readUpTo, Image.length_read, Image.read_add, ← hreceived, Nat.zero_add]

/-! ## What an add does next -/

def Stage.next (space : Volume.Space) (d : Disk) (src : Source) : Stage → Part × Source
  | .reserved => (.room space, src)
  | .streaming t => (.feed (src.read d t.wants).1, (src.read d t.wants).2)
  | .refused _ | .ended _ => (.release, src)
  | .returned _ | .abandoned _ | .givenBack _ => (.finish space true, src)

def Source.opening (src : Source) (d : Disk) : Part :=
  match src.declared d with
  | .error e => .refuse (.io e)
  | .ok size => .reserve size

def Twin.next (t : Twin) (space : Volume.Space) (src : Source) : Phase → Part × Source
  | .starting => (src.opening t.traffic.disk, src)
  | .appending slot => match t.traffic.appends[slot]? with
    | none => (.release, src)
    | some a => a.stage.next space t.traffic.disk src
  | .failing _ => (.unwindContent, src)
  | .unwinding _ => (.unwindIndex true, src)
  | .recorded .. | .failed _ => (.release, src)

def Volume.Feeds (v : Volume) (opened : Opened) (s : Traffic) (src : Source) : Phase → Prop
  | .starting => src = opened.source 0
  | .appending slot => ∃ a, s.appends[slot]? = some a ∧ a.size = v.lengthOf opened ∧ v.Starts a.received opened ∧
      src = opened.source a.received.length
  | .recorded slot l => ∃ f, opened = .file f ∧ s.Returned slot l (v.bytesOf f)
  | .failing _ | .unwinding _ | .failed _ => True

namespace Volume.Feeds

variable {v : Volume} {opened : Opened} {s s' : Traffic} {src : Source} {phase : Phase} {t : TwinLog.Twin}
  {key : String}

/-- Only its own append concerns an add. -/
theorem congr (h : v.Feeds opened s src phase)
    (hs : ∀ n, phase.slot? = some n → ∀ a, s.appends[n]? = some a → s'.appends[n]? = some a) :
    v.Feeds opened s' src phase := by
  cases phase with
  | appending slot =>
    obtain ⟨a, ha, hrest⟩ := h
    exact ⟨a, hs slot rfl a ha, hrest⟩
  | recorded slot l =>
    obtain ⟨f, hf, a, ha, hrest⟩ := h
    exact ⟨f, hf, a, hs slot rfl a ha, hrest⟩
  | _ => exact h

theorem starts (h : v.Feeds opened t.traffic src .starting)
    (hd : ∀ f, opened = .file f → t.traffic.disk.image f = v.disk.image f) (space : Volume.Space) :
    let x := t.next space src .starting
    v.Feeds opened (t.move key .starting x.1).2.traffic x.2 (t.move key .starting x.1).1 := by
  have hsrc : src = opened.source 0 := h
  have hopening : src.opening t.traffic.disk = .reserve (v.lengthOf opened) := by
    rw [hsrc]
    cases opened with
    | folder => rfl
    | file f =>
      show Part.reserve (t.traffic.disk.image f).length = _
      rw [hd f rfl]
      rfl
  dsimp only [Twin.next]
  rw [hopening]
  dsimp only [Twin.move]
  split
  · trivial
  · rename_i c hc
    refine ⟨⟨c.1, v.lengthOf opened, .reserved, []⟩, ?_, rfl, v.starts_nil opened, hsrc⟩
    simp only [Twin.work, Traffic.step, hc]
    exact List.getElem?_concat_length

theorem acts {slot : Nat} (h : v.Feeds opened s src (.appending slot))
    {f : Append → ContentLog → Disk → Append × ContentLog × Disk}
    (hf : ∀ a c d, (f a c d).1.size = a.size ∧ (f a c d).1.received = a.received) :
    v.Feeds opened (s.act slot f) src (.appending slot) := by
  obtain ⟨a, ha, hsize, hstarts, hsrc⟩ := h
  obtain ⟨hsize', hreceived⟩ := hf a s.log s.disk
  refine ⟨(f a s.log s.disk).1, ?_, hsize'.trans hsize, hreceived ▸ hstarts, hreceived ▸ hsrc⟩
  simp only [Traffic.act, ha]
  exact List.getElem?_set_self (List.getElem?_eq_some_iff.mp ha).1

end Volume.Feeds

theorem Append.room_takes (space : Volume.Space) (a : Append) (c : ContentLog) (d : Disk) :
    (a.room space c d).1.size = a.size ∧ (a.room space c d).1.received = a.received := by
  unfold Append.room
  split
  · split <;> exact ⟨rfl, rfl⟩
  · exact ⟨rfl, rfl⟩

theorem Append.release_takes (a : Append) (c : ContentLog) (d : Disk) :
    (a.release c d).1.size = a.size ∧ (a.release c d).1.received = a.received := by
  unfold Append.release
  split <;> exact ⟨rfl, rfl⟩

theorem Append.feed_takes {a : Append} {t : Transfer} (ha : a.stage = .streaming t) (r : Reading) (c : ContentLog)
    (d : Disk) : (a.feed r c d).1.size = a.size ∧ (a.feed r c d).1.received = a.received ++ t.takes r := by
  unfold Append.feed
  rw [ha]
  dsimp only
  split <;> exact ⟨rfl, rfl⟩

namespace Volume.Feeds

variable {v : Volume} {opened : Opened} {src : Source} {t : TwinLog.Twin} {key : String} {opening : Directory}
  {base : Nat} {first : Image}

/-- An append that streams takes what comes next in the file. -/
theorem feeds {slot : Nat} {a : Append} {u : Transfer} (h : v.Feeds opened t.traffic src (.appending slot))
    (ha : t.traffic.appends[slot]? = some a) (hstage : a.stage = .streaming u)
    (hd : ∀ f, opened = .file f → t.traffic.disk.image f = v.disk.image f) :
    v.Feeds opened (t.work (.feed slot (src.read t.traffic.disk u.wants).1)).traffic
      (src.read t.traffic.disk u.wants).2 (.appending slot) := by
  obtain ⟨a', ha', hsize, hstarts, hsrc⟩ := h
  cases ha.symm.trans ha'
  obtain ⟨hsize', htakes⟩ := Append.feed_takes hstage (src.read t.traffic.disk u.wants).1 t.traffic.log t.traffic.disk
  refine ⟨(a.feed (src.read t.traffic.disk u.wants).1 t.traffic.log t.traffic.disk).1, ?_, hsize'.trans hsize, ?_⟩
  · simp only [Twin.work, Traffic.step, Traffic.act, ha]
    exact List.getElem?_set_self (List.getElem?_eq_some_iff.mp ha).1
  · rw [htakes, hsrc]
    cases opened with
    | folder =>
      have hnone : a.received = [] := hstarts
      rw [hnone]
      exact ⟨rfl, rfl⟩
    | file f =>
      obtain ⟨bs, hread, hlen, hmore⟩ := Opened.read_file (hd f rfl) hstarts u.wants
      rw [hread]
      have hall : u.takes (.ok bs) = bs := List.take_of_length_le hlen
      rw [hall]
      exact ⟨hmore, rfl⟩

/-- The append is over: the key is recorded with all bytes of the file, or the add fails. -/
theorem finishes {slot : Nat} (h : v.Feeds opened t.traffic src (.appending slot)) (ht : t.Runs opening base first)
    (space : Volume.Space) (granted : Bool) :
    v.Feeds opened (t.move key (.appending slot) (.finish space granted)).2.traffic src
      (t.move key (.appending slot) (.finish space granted)).1 := by
  have h0 := h
  obtain ⟨a, ha, hsize, hstarts, hsrc⟩ := h
  dsimp only [Twin.move]
  split
  · exact h0
  · trivial
  · rename_i l ho
    obtain ⟨happends, hcases⟩ := t.record_directory key slot l space granted
    rcases hcases with ⟨hphase, -⟩ | ⟨⟨e, hphase, -⟩, -⟩
    · rw [hphase]
      -- what has returned has received as many bytes as were declared
      have hstage : a.stage = .returned l := by
        obtain ⟨a', ha', hover⟩ := Option.bind_eq_some_iff.mp ho
        cases ha.symm.trans ha'
        exact Stage.returned_of_over hover
      have hsound := ht.content.sound slot a ha
      unfold Append.Sound at hsound
      rw [hstage] at hsound
      have hlen : a.received.length = v.lengthOf opened := hsound.2.2.1.trans hsize
      cases opened with
      | folder =>
        have hnone : a.received = [] := hstarts
        rw [hnone] at hlen
        cases hlen
      | file f =>
        obtain ⟨-, hreceived⟩ := hstarts
        rw [hlen] at hreceived
        exact ⟨f, rfl, Traffic.Returned.congr happends ⟨a, ha, hstage, hreceived⟩⟩
    · rw [hphase]
      trivial

/-- Whatever comes next, an add takes its file in order. -/
theorem next {phase : Phase} (h : v.Feeds opened t.traffic src phase) (ht : t.Runs opening base first)
    (hd : ∀ f, opened = .file f → t.traffic.disk.image f = v.disk.image f) (key : String) (space : Volume.Space) :
    let x := t.next space src phase
    v.Feeds opened (t.move key phase x.1).2.traffic x.2 (t.move key phase x.1).1 := by
  cases phase with
  | starting => exact h.starts hd space
  | appending slot =>
    have ⟨a, ha, _⟩ := h
    dsimp only [Twin.next]
    rw [ha]
    dsimp only
    cases hstage : a.stage with
    | reserved => exact h.acts (Append.room_takes space)
    | streaming u => exact h.feeds ha hstage hd
    | refused e => exact h.acts Append.release_takes
    | ended r => exact h.acts Append.release_takes
    | returned l => exact h.finishes ht space true
    | abandoned e => exact h.finishes ht space true
    | givenBack e => exact h.finishes ht space true
  | failing e =>
    dsimp only [Twin.next, Twin.move]
    split <;> trivial
  | unwinding e => trivial
  | recorded slot l => exact h
  | failed e => trivial

end Volume.Feeds

/-! ## All adds -/

structure Intake where
  service : Service
  /-- What each add reads from. -/
  sources : List Source

namespace Intake

def ofLogs (l : Logs) (d : Disk) : Intake := ⟨.ofLogs l d, []⟩

def accept (s : Intake) (key : String) (src : Source) : Intake := ⟨s.service.step (.begin key), s.sources ++ [src]⟩

def advance (s : Intake) (i : Nat) (space : Volume.Space) : Intake :=
  match s.service.adds[i]?, s.sources[i]? with
  | some a, some src =>
    let x := s.service.twin.next space src a.phase
    ⟨s.service.step (.add i x.1), s.sources.set i x.2⟩
  | _, _ => s

structure Fed (v : Volume) (g : Ground) (s : Intake) : Prop where
  length : s.sources.length = s.service.adds.length
  feeds : ∀ (i : Nat) (a : Adding) (src : Source), s.service.adds[i]? = some a → s.sources[i]? = some src →
    ∃ opened, v.openToRead a.key = .ok opened ∧ opened ≠ .file g.storage ∧ opened ≠ .file g.index ∧
      v.Feeds opened s.service.twin.traffic src a.phase

variable {v : Volume} {g : Ground} {s : Intake}

theorem fed_ofLogs (v : Volume) (g : Ground) (l : Logs) (d : Disk) : (ofLogs l d).Fed v g where
  length := rfl
  feeds := fun _ _ _ hi => nomatch hi

theorem step_begin {s : Service} {key : String} (hkey : key ≠ "") (hx : s.exclusive = none) :
    s.step (.begin key) = { s with adds := s.adds ++ [⟨key, .starting⟩] } := by
  have hfree : ¬(key = "" ∨ s.exclusive.isSome) := by simp [hkey, hx]
  exact if_neg hfree

theorem Fed.accept (h : s.Fed v g) {key : String} {opened : Opened} (hkey : key ≠ "")
    (hx : s.service.exclusive = none) (hopened : v.openToRead key = .ok opened) (hs : opened ≠ .file g.storage)
    (hi : opened ≠ .file g.index) : (s.accept key (opened.source 0)).Fed v g := by
  unfold Intake.accept
  rw [step_begin hkey hx]
  refine ⟨?_, ?_⟩
  · simp only [List.length_append, h.length, List.length_singleton]
  · intro i a src ha hsrc
    rcases getElem?_snoc_cases ha with ha | ⟨rfl, rfl⟩
    · rcases getElem?_snoc_cases hsrc with hsrc | ⟨rfl, -⟩
      · exact h.feeds i a src ha hsrc
      · exact absurd (List.getElem?_eq_some_iff.mp ha).1 (Nat.not_lt_of_le (Nat.le_of_eq h.length.symm))
    · have hsrc : (s.sources ++ [opened.source 0])[s.service.adds.length]? = some src := hsrc
      rw [← h.length, List.getElem?_concat_length] at hsrc
      cases hsrc
      exact ⟨opened, hopened, hs, hi, rfl⟩

/-- The next part of an add is fed, and no other add is concerned. -/
theorem Fed.advance (h : s.Fed v g) (hc : s.service.Contest g.opening g.base g.first)
    (hd : v.disk.Beside g.storage g.index s.service.twin.traffic.disk) (i : Nat) (space : Volume.Space) :
    (s.advance i space).Fed v g := by
  unfold Intake.advance
  split
  · rename_i a src hi hsrc
    obtain ⟨opened, hopened, hnot, hnot', hfeeds⟩ := h.feeds i a src hi hsrc
    have hdisk : ∀ f, opened = .file f → s.service.twin.traffic.disk.image f = v.disk.image f := by
      rintro f rfl
      exact hd.others f (fun he => hnot (congrArg _ he)) fun he => hnot' (congrArg _ he)
    dsimp only
    rw [Service.step_moved hi]
    refine ⟨?_, ?_⟩
    · simp only [List.length_set, h.length]
    · intro j b src' hj hsrc'
      by_cases hij : i = j
      · subst hij
        rw [List.getElem?_set_self (List.getElem?_eq_some_iff.mp hi).1] at hj
        rw [List.getElem?_set_self (List.getElem?_eq_some_iff.mp hsrc).1] at hsrc'
        cases hj
        cases hsrc'
        exact ⟨opened, hopened, hnot, hnot', hfeeds.next hc.twin hdisk a.key space⟩
      · rw [List.getElem?_set_ne hij] at hj hsrc'
        obtain ⟨opened', hopened', hs', hi', hfeeds'⟩ := h.feeds j b src' hj hsrc'
        refine ⟨opened', hopened', hs', hi', hfeeds'.congr ?_⟩
        intro n hn c hc'
        exact Twin.move_appends _ _ _ _ (fun ha => hij (hc.own i j a b n hi hj ha hn)) hc'
  · exact h

/-- An add that is over has recorded all bytes of its file. -/
theorem Fed.recorded (h : s.Fed v g) {i slot : Nat} {path : String} {l : Location}
    (hi : s.service.adds[i]? = some ⟨path, .recorded slot l⟩) :
    ∃ bs, v.readPart path 0 none = .ok bs ∧ s.service.Recorded ⟨path, l, bs⟩ := by
  obtain ⟨src, hsrc⟩ : ∃ src, s.sources[i]? = some src := by
    have hlt := (List.getElem?_eq_some_iff.mp hi).1
    rw [← h.length] at hlt
    exact ⟨_, List.getElem?_eq_getElem hlt⟩
  obtain ⟨opened, hopened, -, -, f, rfl, hreturned⟩ := h.feeds i _ src hi hsrc
  exact ⟨_, Volume.readPart_whole hopened, i, slot, hi, hreturned⟩

end Intake

end TwinLog
