/-
  TwinLog.Proofs.Log.Lifetime — a log file over its lifetime is a byte memory that starts
  as the file was found and is zero beyond it.

  A `Life` is the file of one path together with the log that is open on it, if one is. It
  takes any calls: openings with any capacity, also of a log that is open or was dropped,
  reads and writes anywhere, cursors, growth against any free space, flushes. Any of them
  may be refused. Beside the files it keeps what was written with success, the last first
  (`written`); a stored cursor is such a write.

  What every call keeps is `Holds`: each byte of the file is the one that was last written
  there, else the one the file began with, else zero (`remembered`), and an open log is
  mounted, so that its capacity is the length of the file. A byte that growth uncovers was
  never written and lies beyond the first file; this is why the writes are bounded in
  `Holds` by the length as well.

  - `life_is_memory`: which reads and writes succeed, what they answer, and what openings,
    growth and refused calls do, after any calls.
-/

import TwinLog.Proofs.Log.Opening

namespace TwinLog

namespace Log

/-! ## Calls -/

inductive Use where
  | read (offset n : Nat)
  | write (offset : Nat) (bs : List UInt8)
  | loadCursor
  | storeCursor (cursor : Nat)
  | grow (space : Volume.Space) (required : Nat)
  | flush

inductive Call where
  /-- A log that is open is let go of if the opening succeeds. -/
  | openAt (requested : Nat)
  | drop
  | use (u : Use)
  /-- The rest of the machine leaves so many bytes free. -/
  | free (available : Nat)

inductive Reply where
  | done
  | bytes (bs : List UInt8)
  | cursor (c : Nat)
  | grew (grew : Bool)
  | refused (e : Fault)
  /-- No log is open. -/
  | closed
  deriving DecidableEq

/-- The file of a path, the log open on it, and what was written since the beginning. -/
structure Life where
  log : Option Log
  volume : Volume
  written : List (Nat × List UInt8)

namespace Life

def begin (v : Volume) : Life := ⟨none, v, []⟩

def left (s : Life) (l : Log) (d : Disk) : Life := { s with log := some l, volume := { s.volume with disk := d } }

def wrote (s : Life) (offset : Nat) (bs : List UInt8) : Life := { s with written := (offset, bs) :: s.written }

def use (s : Life) (l : Log) : Use → Reply × Life
  | .read offset n => match l.read s.volume.disk offset n with
    | .error e => (.refused e, s)
    | .ok bs => (.bytes bs, s)
  | .write offset bs => match l.write s.volume.disk offset bs with
    | .error e => (.refused e, s)
    | .ok d => (.done, (s.left l d).wrote offset bs)
  | .loadCursor => match l.loadCursor s.volume.disk with
    | .error e => (.refused e, s)
    | .ok c => (.cursor c, s)
  | .storeCursor cursor => match l.storeCursor s.volume.disk cursor with
    | .error e => (.refused e, s)
    | .ok d => (.done, (s.left l d).wrote 0 (int64Bytes (Int64.ofNat cursor)))
  | .grow space required => match l.grow space s.volume.disk required with
    | .error e => (.refused e, s)
    | .ok (grew, l', d) => (.grew grew, s.left l' d)
  | .flush => (.done, s.left l (l.flush s.volume.disk))

def step (path : String) (s : Life) : Call → Reply × Life
  | .openAt requested => match Log.openAt s.volume path requested with
    | .error e => (.refused e, s)
    | .ok (l, v) => (.done, { s with log := some l, volume := v })
  | .drop => (.done, { s with log := none })
  | .free available => (.done, { s with volume := { s.volume with available } })
  | .use u => match s.log with
    | none => (.closed, s)
    | some l => s.use l u

def run (path : String) (s : Life) (calls : List Call) : Life := calls.foldl (fun s c => (s.step path c).2) s

end Life

def lastWritten : List (Nat × List UInt8) → Nat → Option UInt8
  | [], _ => none
  | (offset, bs) :: before, i => if offset ≤ i then bs[i - offset]?.or (lastWritten before i) else lastWritten before i

/-- The byte at `i` of a memory that began as `first`. -/
def remembered (first : Image) (written : List (Nat × List UInt8)) (i : Nat) : UInt8 :=
  (lastWritten written i).getD (if i < first.length then first.get i else 0)

/-- All numbers that a caller can pass fit a word; that of a growth is the one that matters. -/
def Call.Fits : Call → Prop
  | .use (.grow _ required) => required ≤ maxUnsigned
  | _ => True

/-! ## What every call keeps -/

variable {path : String} {f : FileId} {first : Image} {floor : Nat} {s : Life} {l : Log} {d d' : Disk} {v : Volume}

/-- The file is the memory, and an open log sees all of it. It is not shorter than `floor`. -/
structure Holds (path : String) (f : FileId) (first : Image) (floor : Nat) (s : Life) : Prop where
  sound : s.volume.Sound
  reaches : s.volume.Reaches path f
  fits : (s.volume.disk.image f).length ≤ maxUnsigned
  begins : first.length ≤ (s.volume.disk.image f).length
  floor_le : floor ≤ (s.volume.disk.image f).length
  within : ∀ w ∈ s.written, w.1 + w.2.length ≤ (s.volume.disk.image f).length
  bytes : ∀ i, i < (s.volume.disk.image f).length → (s.volume.disk.image f).get i = remembered first s.written i
  mounted : ∀ l, s.log = some l → l.file = f ∧ l.Mounted s.volume.disk

theorem remembered_cons (offset : Nat) (bs : List UInt8) (before : List (Nat × List UInt8)) (first : Image) (i : Nat) :
    remembered first ((offset, bs) :: before) i =
      if offset ≤ i then bs[i - offset]?.getD (remembered first before i) else remembered first before i := by
  by_cases h : offset ≤ i
  · simp only [remembered, lastWritten, h, if_true]
    cases bs[i - offset]? <;> rfl
  · simp only [remembered, lastWritten, h, if_false]

theorem lastWritten_beyond {written : List (Nat × List UInt8)} {stop i : Nat}
    (h : ∀ w ∈ written, w.1 + w.2.length ≤ stop) (hi : stop ≤ i) : lastWritten written i = none := by
  induction written with
  | nil => rfl
  | cons w before ih =>
    have hw := h w List.mem_cons_self
    have hb := ih fun w' hw' => h w' (List.mem_cons_of_mem _ hw')
    simp only [lastWritten]
    rw [List.getElem?_eq_none (by omega), hb]
    simp

theorem reaches_onDisk (h : v.Reaches path f) (hv : v.Sound) (hs : d.files.size = v.disk.files.size) :
    ({ v with disk := d } : Volume).Reaches path f := by
  rcases h with h | ⟨hf, folder, name, h⟩
  · exact .inl (h.grown hv (.of_nodes rfl))
  · exact .inr ⟨hf.trans hs.symm, folder, name, h.of_nodes rfl⟩

namespace Holds

theorem begin (hv : v.Sound) (hr : v.Reaches path f) (hl : (v.disk.image f).length ≤ maxUnsigned) :
    Holds path f (v.disk.image f) 0 (.begin v) where
  sound := hv
  reaches := hr
  fits := hl
  begins := Nat.le_refl _
  floor_le := Nat.zero_le _
  within := fun w hw => nomatch hw
  bytes := by
    intro i hi
    have h : i < (v.disk.image f).length := hi
    simp [remembered, lastWritten, Life.begin, h]
  mounted := fun l hl => nomatch hl

/-- A byte beyond the file is zero in the memory. -/
theorem beyond (h : Holds path f first floor s) {i : Nat} (hi : (s.volume.disk.image f).length ≤ i) :
    remembered first s.written i = 0 := by
  have hb := h.begins
  rw [remembered, lastWritten_beyond h.within hi, Option.getD_none, if_neg (by omega)]

/-- The file has been lengthened, if anything, with zeros. -/
theorem lengthen (h : Holds path f first floor s) {w : Volume} (hw : w.Sound) (hr : w.Reaches path f)
    (hfits : (w.disk.image f).length ≤ maxUnsigned)
    (hle : (s.volume.disk.image f).length ≤ (w.disk.image f).length)
    (hget : ∀ i, i < (w.disk.image f).length → (w.disk.image f).get i =
      if i < (s.volume.disk.image f).length then (s.volume.disk.image f).get i else 0)
    (hf : l.file = f) (hm : l.Mounted w.disk) : Holds path f first floor { s with log := some l, volume := w } where
  sound := hw
  reaches := hr
  fits := hfits
  begins := Nat.le_trans h.begins hle
  floor_le := Nat.le_trans h.floor_le hle
  within := fun w hw => Nat.le_trans (h.within w hw) hle
  bytes := by
    intro i hi
    show (w.disk.image f).get i = remembered first s.written i
    rw [hget i hi]
    by_cases hold : i < (s.volume.disk.image f).length
    · rw [if_pos hold, h.bytes i hold]
    · rw [if_neg hold, h.beyond (Nat.le_of_not_lt hold)]
  mounted := fun _ hl => Option.some.inj hl ▸ ⟨hf, hm⟩

theorem wrote (h : Holds path f first floor s) (hf : l.file = f) (hm : l.Mounted s.volume.disk) {offset : Nat}
    {bs : List UInt8} (hin : offset + bs.length ≤ l.capacity) (hs : d.files.size = s.volume.disk.files.size)
    (hm' : l.Mounted d) (hget : ∀ i, i < l.capacity → (d.image f).get i =
      ((s.volume.disk.image f).write offset bs).get i) :
    Holds path f first floor ((s.left l d).wrote offset bs) := by
  have hlen : (s.volume.disk.image f).length = l.capacity := hf ▸ hm.length_eq
  have hlen' : (d.image f).length = l.capacity := hf ▸ hm'.length_eq
  have hle : (s.volume.disk.image f).length ≤ (d.image f).length := by omega
  exact {
    sound := h.sound.of_nodes rfl (Nat.le_of_eq hs.symm)
    reaches := reaches_onDisk h.reaches h.sound hs
    fits := by
      show (d.image f).length ≤ maxUnsigned
      have := h.fits
      omega
    begins := Nat.le_trans h.begins hle
    floor_le := Nat.le_trans h.floor_le hle
    within := by
      intro w hw
      rcases List.mem_cons.mp hw with rfl | hw
      · show offset + bs.length ≤ (d.image f).length
        omega
      · exact Nat.le_trans (h.within w hw) hle
    bytes := by
      intro i hi
      have hi : i < l.capacity := hlen' ▸ hi
      show (d.image f).get i = remembered first ((offset, bs) :: s.written) i
      rw [hget i hi, Image.get_write, remembered_cons, h.bytes i (by omega)]
    mounted := fun _ hl => Option.some.inj hl ▸ ⟨hf, hm'⟩ }

end Holds

/-! ## One call -/

/-- An opening lengthens the file to the capacity and does nothing else to it. -/
theorem openAt_image (hv : v.Sound) {requested : Nat} {w : Volume} (h : openAt v path requested = .ok (l, w)) :
    requested + headSize ≤ maxUnsigned ∧ w.disk.image l.file = (v.disk.image l.file).extend l.capacity := by
  have hr := (openAt_spec hv h).reaches
  have hfits : requested + headSize ≤ maxUnsigned := by
    unfold openAt at h
    split at h
    · cases h
    · omega
  refine ⟨hfits, ?_⟩
  generalize l.file = f at hr ⊢
  obtain ⟨w', hopen, hw⟩ := openToWrite_reaches hv hr
  rw [openAt_eq hr hfits rfl] at h
  split at h
  · cases h
  · rw [hopen] at h
    cases h
    show (w'.disk.update f _).image f = _
    rw [Disk.image_update_self _ (hw.names.file_lt hw.sound), hw.image]

namespace Holds

theorem openAt (h : Holds path f first floor s) {requested : Nat} {w : Volume}
    (ho : Log.openAt s.volume path requested = .ok (l, w)) :
    Holds path f first floor { s with log := some l, volume := w } := by
  obtain ⟨hfits, himage⟩ := openAt_image h.sound ho
  have hopened := openAt_spec h.sound ho
  have hf := hopened.reaches.unique h.reaches
  rw [hf] at himage
  have hcap := hopened.capacity
  have hlen := hopened.mounted.length_eq
  have hold := h.fits
  rw [hf] at hcap hlen
  refine h.lengthen hopened.sound (.inl (hf ▸ hopened.names)) (by omega) (by omega) ?_ hf hopened.mounted
  intro i hi
  rw [himage] at hi ⊢
  exact Image.get_extend hi

theorem grow (h : Holds path f first floor s) (hf : l.file = f) (hm : l.Mounted s.volume.disk) {space : Volume.Space}
    {required : Nat} {grew : Bool} {l' : Log} (hr : required ≤ maxUnsigned)
    (hg : l.grow space s.volume.disk required = .ok (grew, l', d)) : Holds path f first floor (s.left l' d) := by
  obtain ⟨hf', -, hle, -, hm', ho, -⟩ := grow_spec hm hg
  have hlen : (s.volume.disk.image f).length = l.capacity := hf ▸ hm.length_eq
  have hlen' : (d.image f).length = l'.capacity := (hf'.trans hf) ▸ hm'.length_eq
  have hfits := h.fits
  refine h.lengthen (h.sound.of_nodes rfl (Nat.le_of_eq ho.size.symm)) (reaches_onDisk h.reaches h.sound ho.size)
    ?_ (by show _ ≤ (d.image f).length; omega) ?_ (hf'.trans hf) hm'
  · show (d.image f).length ≤ maxUnsigned
    rcases grow_iff.mp hg with ⟨-, heq⟩ | ⟨-, -, heq⟩
    · cases heq
      exact hfits
    · cases heq
      rw [hlen']
      show max (min (2 * l.capacity) maxUnsigned) required ≤ maxUnsigned
      omega
  · intro i hi
    show (d.image f).get i = _
    have hi : i < (d.image f).length := hi
    rcases grow_iff.mp hg with ⟨-, heq⟩ | ⟨-, -, heq⟩
    · cases heq
      rw [if_pos hi]
    · cases heq
      subst hf
      rw [hlen'] at hi
      rw [hm.image_update, Image.get_resize]
      by_cases hold : i < (s.volume.disk.image l.file).length
      · rw [if_pos ⟨hold, hi⟩, if_pos hold]
      · rw [if_neg fun hb => hold hb.1, if_neg hold]

theorem flush (h : Holds path f first floor s) (hf : l.file = f) (hm : l.Mounted s.volume.disk) :
    Holds path f first floor (s.left l (l.flush s.volume.disk)) := by
  obtain ⟨hm', ho, hk⟩ := flush_spec hm
  have hlen : (s.volume.disk.image f).length = l.capacity := hf ▸ hm.length_eq
  have hlen' : ((l.flush s.volume.disk).image f).length = l.capacity := hf ▸ hm'.length_eq
  have hfits := h.fits
  refine h.lengthen (h.sound.of_nodes rfl (Nat.le_of_eq ho.size.symm)) (reaches_onDisk h.reaches h.sound ho.size)
    ?_ ?_ ?_ hf hm'
  · show ((l.flush s.volume.disk).image f).length ≤ maxUnsigned
    omega
  · show _ ≤ ((l.flush s.volume.disk).image f).length
    omega
  · intro i hi
    have hi : i < l.capacity := hlen' ▸ hi
    show ((l.flush s.volume.disk).image f).get i = _
    rw [if_pos (by omega)]
    exact hf ▸ hk i (Nat.zero_le _) hi

theorem use (h : Holds path f first floor s) (hf : l.file = f) (hm : l.Mounted s.volume.disk) (u : Use)
    (hu : (Call.use u).Fits) : Holds path f first floor (s.use l u).2 := by
  cases u with
  | read offset n =>
    simp only [Life.use]
    split <;> exact h
  | write offset bs =>
    simp only [Life.use]
    split
    · exact h
    · rename_i d hw
      obtain ⟨hin, rfl⟩ := write_iff.mp hw
      refine h.wrote hf hm hin (Disk.size_update ..) (mounted_write hm) ?_
      intro i _
      subst hf
      rw [hm.image_update]
  | loadCursor =>
    simp only [Life.use]
    split <;> exact h
  | storeCursor cursor =>
    simp only [Life.use]
    split
    · exact h
    · rename_i d hw
      have hm'' := (Log.storeCursor_ok hm hw).1
      obtain ⟨-, hcap, rfl⟩ := storeCursor_iff.mp hw
      have hin : 0 + (int64Bytes (Int64.ofNat cursor)).length ≤ l.capacity := by
        rw [length_int64Bytes]
        exact hcap
      have hm' : l.Mounted (s.volume.disk.update l.file (·.write 0 (int64Bytes (Int64.ofNat cursor)))) :=
        mounted_write hm
      refine h.wrote hf hm hin ?_ hm'' ?_
      · rw [Disk.size_update, Disk.size_update]
      · intro i hi
        subst hf
        rw [hm'.image_update, Image.get_flush_of_lt (by rw [hm'.length_eq]; exact hi), hm.image_update]
  | grow space required =>
    simp only [Life.use]
    split
    · exact h
    · rename_i hg
      exact h.grow hf hm hu hg
  | flush => exact h.flush hf hm

theorem step (h : Holds path f first floor s) (c : Call) (hc : c.Fits) :
    Holds path f first floor (s.step path c).2 := by
  cases c with
  | openAt requested =>
    simp only [Life.step]
    split
    · exact h
    · rename_i ho
      exact h.openAt ho
  | drop => exact { h with mounted := fun l hl => nomatch hl }
  | free available =>
    exact { h with
      sound := h.sound.of_nodes rfl (Nat.le_refl _)
      reaches := by
        rcases h.reaches with hn | ⟨hf, folder, name, hvac⟩
        · exact .inl (hn.grown h.sound (.of_nodes rfl))
        · exact .inr ⟨hf, folder, name, hvac.of_nodes rfl⟩ }
  | use u =>
    simp only [Life.step]
    split
    · exact h
    · rename_i l hl
      obtain ⟨hf, hm⟩ := h.mounted l hl
      exact h.use hf hm u hc

theorem run (h : Holds path f first floor s) {calls : List Call} (hc : ∀ c ∈ calls, c.Fits) :
    Holds path f first floor (s.run path calls) := by
  induction calls generalizing s with
  | nil => exact h
  | cons c rest ih =>
    exact ih (h.step c (hc c List.mem_cons_self)) fun c' hc' => hc c' (List.mem_cons_of_mem _ hc')

/-- No call shortens the file. -/
theorem length_le_run (h : Holds path f first floor s) {calls : List Call} (hc : ∀ c ∈ calls, c.Fits) :
    (s.volume.disk.image f).length ≤ ((s.run path calls).volume.disk.image f).length := by
  have hs : Holds path f first (s.volume.disk.image f).length s := { h with floor_le := Nat.le_refl _ }
  exact (hs.run hc).floor_le

end Holds

/-! ## The memory -/

/-- A refused call leaves all as it was. -/
theorem step_refused {c : Call} {e : Fault} (h : (s.step path c).1 = .refused e) : (s.step path c).2 = s := by
  have huse {l : Log} {u : Use} (h : (s.use l u).1 = .refused e) : (s.use l u).2 = s := by
    cases u with
    | flush => cases h
    | _ =>
      simp only [Life.use] at h ⊢
      split at h
      · simp only [*]
      · cases h
  cases c with
  | openAt requested =>
    simp only [Life.step] at h ⊢
    split at h
    · rfl
    · cases h
  | drop => cases h
  | free available => cases h
  | use u =>
    simp only [Life.step] at h ⊢
    split at h
    · cases h
    · exact huse h

theorem read_answers_iff {offset n : Nat} {bs : List UInt8} : (s.use l (.read offset n)).1 = .bytes bs ↔
    offset + n ≤ l.capacity ∧ bs = (s.volume.disk.image l.file).read offset n := by
  rw [← read_iff, Life.use]
  cases l.read s.volume.disk offset n <;> simp

theorem write_done_iff {offset : Nat} {bs : List UInt8} :
    (s.use l (.write offset bs)).1 = .done ↔ offset + bs.length ≤ l.capacity := by
  rw [Life.use]
  constructor
  · intro h
    split at h
    · cases h
    · rename_i hwrite
      exact (write_iff.mp hwrite).1
  · intro h
    rw [write_ok h]

/-- A growth that is not needed changes nothing, any other sets the capacity alone. -/
theorem grow_answers (hl : s.log = some l) {space : Volume.Space} {required : Nat} {grew : Bool}
    (h : (s.use l (.grow space required)).1 = .grew grew) :
    required ≤ l.capacity ∧ (s.use l (.grow space required)).2 = s ∨
      l.capacity < required ∧ (s.use l (.grow space required)).2.written = s.written ∧
        (s.use l (.grow space required)).2.log =
          some { l with capacity := max (min (2 * l.capacity) maxUnsigned) required } := by
  rw [Life.use] at h ⊢
  split at h
  · cases h
  · rename_i hgrow
    rcases grow_iff.mp hgrow with ⟨hroom, heq⟩ | ⟨hshort, -, heq⟩
    · cases heq
      refine .inl ⟨hroom, ?_⟩
      simp only [Life.left, ← hl]
    · cases heq
      exact .inr ⟨hshort, rfl, rfl⟩

namespace Holds

theorem length_eq (h : Holds path f first floor s) (hl : s.log = some l) :
    (s.volume.disk.image f).length = l.capacity := by
  obtain ⟨hf, hm⟩ := h.mounted l hl
  exact hf ▸ hm.length_eq

/-- Within the file a range holds what is remembered of it. -/
theorem read_eq (h : Holds path f first floor s) {offset n : Nat}
    (hin : offset + n ≤ (s.volume.disk.image f).length) :
    (s.volume.disk.image f).read offset n = (List.range' offset n).map (remembered first s.written) := by
  apply List.map_congr_left
  intro i hi
  have := List.mem_range'_1.mp hi
  exact h.bytes i (by omega)

end Holds

/-- After any calls on the file of a path, which may be absent or hold anything:
    - an open log has the length of the file as its capacity, which is never less later;
    - a read or a write succeeds just if it ends within the capacity, as a word;
    - a read answers what was last written to each place, else the first bytes, else zeros;
    - growth changes nothing if there is room, and else gives double or what is required;
    - a refused call changes nothing. -/
theorem life_is_memory (hv : v.Sound) (hr : v.Reaches path f) (hl : (v.disk.image f).length ≤ maxUnsigned)
    (calls later : List Call) (hc : ∀ c ∈ calls ++ later, c.Fits) :
    let s := (Life.begin v).run path calls
    let t := s.run path later
    (∀ l, s.log = some l →
      (s.volume.disk.image f).length = l.capacity ∧
      (∀ offset n, (∃ bs, (s.step path (.use (.read offset n))).1 = .bytes bs) ↔
        offset + n ≤ maxUnsigned ∧ offset + n ≤ l.capacity) ∧
      (∀ offset bs, (s.step path (.use (.write offset bs))).1 = .done ↔
        offset + bs.length ≤ maxUnsigned ∧ offset + bs.length ≤ l.capacity) ∧
      (∀ offset n bs, (s.step path (.use (.read offset n))).1 = .bytes bs →
        bs = (List.range' offset n).map (remembered (v.disk.image f) s.written)) ∧
      (∀ space required grew, (s.step path (.use (.grow space required))).1 = .grew grew →
        required ≤ l.capacity ∧ (s.step path (.use (.grow space required))).2 = s ∨
        l.capacity < required ∧ (s.step path (.use (.grow space required))).2.written = s.written ∧
          (s.step path (.use (.grow space required))).2.log =
            some { l with capacity := max (min (2 * l.capacity) maxUnsigned) required }) ∧
      ∀ l', t.log = some l' → l.capacity ≤ l'.capacity) ∧
    (∀ c e, (s.step path c).1 = .refused e → (s.step path c).2 = s) ∧
    (s.volume.disk.image f).length ≤ (t.volume.disk.image f).length := by
  intro s t
  have hs : Holds path f (v.disk.image f) 0 s :=
    (Holds.begin hv hr hl).run fun c h => hc c (List.mem_append_left _ h)
  have hlater : ∀ c ∈ later, c.Fits := fun c h => hc c (List.mem_append_right _ h)
  have hle : (s.volume.disk.image f).length ≤ (t.volume.disk.image f).length := hs.length_le_run hlater
  refine ⟨?_, fun c e => step_refused, hle⟩
  intro l hlog
  obtain ⟨hf, -⟩ := hs.mounted l hlog
  have hlen := hs.length_eq hlog
  have hfits := hs.fits
  have huse (u : Use) : s.step path (.use u) = s.use l u := by simp only [Life.step, hlog]
  simp only [huse, read_answers_iff, write_done_iff]
  refine ⟨hlen, ?_, ?_, ?_, fun _ _ _ => grow_answers hlog, ?_⟩
  · intro offset n
    constructor
    · rintro ⟨bs, hin, -⟩
      omega
    · intro h
      exact ⟨_, h.2, rfl⟩
  · intro offset bs
    omega
  · rintro offset n bs ⟨hin, rfl⟩
    rw [hf]
    exact hs.read_eq (by omega)
  · intro l' hlog'
    have hlen' : (t.volume.disk.image f).length = l'.capacity := (hs.run hlater).length_eq hlog'
    omega

/-- Two sessions on a new file: the second one opens it with less room than it has, and
    reads across the end of what the first has written before it grew. -/
def twoSessions : List Call :=
  [.openAt 24, .use (.write 30 [1, 2]), .use (.write 31 [1, 2]), .use (.grow (fun _ => .ok 100) 33),
    .use (.storeCursor 32), .drop, .openAt 0, .use (.write 30 [7])]

theorem two_sessions_remember : ∃ l, ((Life.begin (.empty 4096)).run "a.log" twoSessions).log = some l ∧
    l.capacity = 64 ∧
    ∃ bs, (((Life.begin (.empty 4096)).run "a.log" twoSessions).step "a.log" (.use (.read 0 34))).1 = .bytes bs ∧
      bs = 32 :: List.replicate 29 0 ++ [7, 2, 0, 0] := by
  have hvac : (Volume.empty 4096).Vacant "a.log" 1 "a.log" := by rfl
  obtain ⟨hopen, -⟩ := life_is_memory (Volume.sound_empty 4096) (.inr ⟨rfl, 1, "a.log", hvac⟩) (by decide)
    twoSessions [] (by simp [twoSessions, Call.Fits, maxUnsigned])
  have hlog : ((Life.begin (.empty 4096)).run "a.log" twoSessions).log = some ⟨"a.log", 0, 64⟩ := by decide +kernel
  obtain ⟨-, hread, -, hbytes, -⟩ := hopen _ hlog
  obtain ⟨bs, hbs⟩ := (hread 0 34).mpr (by decide)
  refine ⟨_, hlog, rfl, bs, hbs, ?_⟩
  rw [hbytes 0 34 bs hbs]
  decide +kernel

end Log

end TwinLog
