/-
  TwinLog.Proofs.Log.Memory — what the operations of a log do to the bytes of its file.

  A log is `Mounted` on a disk when its file is there and exactly as long as the log's
  capacity. Each operation then changes its own file alone (`Disk.OnlyAt`) and keeps the
  log mounted:
  - a write changes its range and nothing else (`write_spec`);
  - growing and flushing keep every byte below the old capacity (`grow_spec`,
    `flush_spec`);
  - storing a cursor changes the first 8 bytes alone (`storeCursor_spec`).
  What a header says is `Image.Headed`; `loadCursor` answers exactly that
  (`loadCursor_iff`).
-/

import TwinLog.Log

namespace TwinLog

/-! ## Parts of a disk that stay -/

structure Disk.OnlyAt (f : FileId) (d d' : Disk) : Prop where
  size : d'.files.size = d.files.size
  others : ∀ g, g ≠ f → d'.image g = d.image g

namespace Disk.OnlyAt

variable {f : FileId} {d d' d'' : Disk}

theorem refl : OnlyAt f d d := ⟨rfl, fun _ _ => rfl⟩

theorem trans (h : OnlyAt f d d') (h' : OnlyAt f d' d'') : OnlyAt f d d'' :=
  ⟨h'.size.trans h.size, fun g hg => (h'.others g hg).trans (h.others g hg)⟩

theorem update (change : Image → Image) : OnlyAt f d (d.update f change) :=
  ⟨size_update .., fun _ hg => image_update_ne d (Ne.symm hg) change⟩

end Disk.OnlyAt

def Image.Keeps (lo hi : Nat) (im im' : Image) : Prop := ∀ i, lo ≤ i → i < hi → im'.get i = im.get i

namespace Image.Keeps

variable {lo hi lo' hi' : Nat} {im im' im'' : Image}

theorem refl : Keeps lo hi im im := fun _ _ _ => rfl

theorem trans (h : Keeps lo hi im im') (h' : Keeps lo hi im' im'') : Keeps lo hi im im'' :=
  fun i hl hh => (h' i hl hh).trans (h i hl hh)

theorem mono (h : Keeps lo hi im im') (hl : lo ≤ lo') (hh : hi' ≤ hi) : Keeps lo' hi' im im' :=
  fun i hl' hh' => h i (Nat.le_trans hl hl') (Nat.lt_of_lt_of_le hh' hh)

theorem read_eq (h : Keeps lo hi im im') {offset n : Nat} (hl : lo ≤ offset) (hh : offset + n ≤ hi) :
    im'.read offset n = im.read offset n := by
  apply List.map_congr_left
  intro i hi
  rw [List.mem_range'_1] at hi
  exact h i (Nat.le_trans hl hi.1) (Nat.lt_of_lt_of_le hi.2 hh)

end Image.Keeps

namespace Image

@[simp] theorem length_read (im : Image) (offset n : Nat) : (im.read offset n).length = n := Sparse.length_read ..

theorem keeps_write_above {im : Image} {offset : Nat} {bs : List UInt8} {lo hi : Nat}
    (h : offset + bs.length ≤ lo) :
    Keeps lo hi im (im.write offset bs) := by
  intro i hl _
  rw [get_write, if_pos (by omega), List.getElem?_eq_none (by omega)]
  rfl

theorem keeps_write_below {im : Image} {offset : Nat} {bs : List UInt8} {lo hi : Nat} (h : hi ≤ offset) :
    Keeps lo hi im (im.write offset bs) := by
  intro i _ hh
  rw [get_write, if_neg (by omega)]

theorem read_write (im : Image) (offset : Nat) (bs : List UInt8) :
    (im.write offset bs).read offset bs.length = bs :=
  Sparse.read_write_self ..

theorem read_add (im : Image) (offset m n : Nat) :
    im.read offset (m + n) = im.read offset m ++ im.read (offset + m) n := by
  simp only [read, Sparse.read, ← List.map_append, List.range'_append_1]

/-! ## The cursor in a header -/

def rawCursor (im : Image) : Int := (int64OfBytes (im.read 0 headSize)).toInt

/-- The header says `cursor`; a log that was never committed says the end of its header. -/
def Headed (im : Image) (cursor : Nat) : Prop :=
  (im.rawCursor = 0 ∧ cursor = headSize) ∨ (im.rawCursor = cursor ∧ headSize ≤ cursor)

theorem rawCursor_eq {im im' : Image} (h : Keeps 0 headSize im im') : im'.rawCursor = im.rawCursor := by
  rw [rawCursor, rawCursor, h.read_eq (Nat.le_refl _) (by simp)]

end Image

theorem toInt_ofNat {n : Nat} (h : n ≤ maxSigned) : (Int64.ofNat n).toInt = n :=
  Int64.toInt_ofNat_of_lt (by simp only [maxSigned] at h; omega)

theorem toInt_le_maxSigned (x : Int64) : x.toInt ≤ maxSigned := by
  have := x.toInt_lt
  simp only [maxSigned]
  omega

namespace Image.Headed

variable {im im' : Image} {a b : Nat}

theorem head_le (h : im.Headed a) : headSize ≤ a := by
  rcases h with ⟨-, rfl⟩ | ⟨-, h⟩
  · exact Nat.le_refl _
  · exact h

theorem le_maxSigned (h : im.Headed a) : a ≤ maxSigned := by
  rcases h with ⟨-, rfl⟩ | ⟨h, -⟩
  · decide
  · have := toInt_le_maxSigned (int64OfBytes (im.read 0 headSize))
    unfold rawCursor at h
    omega

theorem unique (h : im.Headed a) (h' : im.Headed b) : a = b := by
  have ha := h.head_le
  have hb := h'.head_le
  simp only [headSize] at ha hb
  rcases h with ⟨h, rfl⟩ | ⟨h, -⟩ <;> rcases h' with ⟨h', rfl⟩ | ⟨h', -⟩ <;> omega

theorem congr (hk : Keeps 0 headSize im im') (h : im.Headed a) : im'.Headed a := by
  unfold Headed
  rw [rawCursor_eq hk]
  exact h

end Image.Headed

/-! ## Logs -/

namespace Log

/-- The file is there and as long as the log believes. -/
structure Mounted (l : Log) (d : Disk) : Prop where
  file_lt : l.file < d.files.size
  length_eq : (d.image l.file).length = l.capacity
  head_le : headSize ≤ l.capacity

variable {l l' : Log} {d d' : Disk} {offset n : Nat} {bs : List UInt8}

theorem Mounted.image_update (h : l.Mounted d) (change : Image → Image) :
    (d.update l.file change).image l.file = change (d.image l.file) := d.image_update_self h.file_lt change

theorem Mounted.elsewhere {f : FileId} (h : l.Mounted d) (ho : d.OnlyAt f d') (hf : l.file ≠ f) :
    l.Mounted d' :=
  ⟨ho.size ▸ h.file_lt, (ho.others _ hf).symm ▸ h.length_eq, h.head_le⟩

theorem checkRange_ok (h : offset + n ≤ l.capacity) : l.checkRange offset n = .ok () := by
  rw [checkRange, if_pos h]

theorem read_ok (h : offset + n ≤ l.capacity) : l.read d offset n = .ok ((d.image l.file).read offset n) := by
  rw [read, checkRange_ok h]

theorem write_ok (h : offset + bs.length ≤ l.capacity) :
    l.write d offset bs = .ok (d.update l.file (·.write offset bs)) := by
  rw [write, checkRange_ok h]

theorem write_iff :
    l.write d offset bs = .ok d' ↔ offset + bs.length ≤ l.capacity ∧ d' = d.update l.file (·.write offset bs) := by
  unfold write checkRange
  by_cases h : offset + bs.length ≤ l.capacity
  · simp [h, eq_comm]
  · simp [h]

theorem read_iff :
    l.read d offset n = .ok bs ↔ offset + n ≤ l.capacity ∧ bs = (d.image l.file).read offset n := by
  unfold read checkRange
  by_cases h : offset + n ≤ l.capacity
  · simp [h, eq_comm]
  · simp [h]

theorem mounted_write (hm : l.Mounted d) : l.Mounted (d.update l.file (·.write offset bs)) :=
  ⟨by rw [Disk.size_update]; exact hm.file_lt,
    by rw [hm.image_update, Image.length_write]; exact hm.length_eq, hm.head_le⟩

/-- A write inside the capacity succeeds and changes the bytes of its range alone. -/
theorem write_spec (hm : l.Mounted d) (offset : Nat) (bs : List UInt8) (h : offset + bs.length ≤ l.capacity) :
    ∃ d', l.write d offset bs = .ok d' ∧ l.Mounted d' ∧ d.OnlyAt l.file d' ∧
      d'.image l.file = (d.image l.file).write offset bs :=
  ⟨_, write_ok h, mounted_write hm, .update _, hm.image_update _⟩

theorem flush_spec (hm : l.Mounted d) :
    l.Mounted (l.flush d) ∧ d.OnlyAt l.file (l.flush d) ∧
      Image.Keeps 0 l.capacity (d.image l.file) ((l.flush d).image l.file) := by
  refine ⟨⟨?_, ?_, hm.head_le⟩, .update _, ?_⟩
  · rw [flush, Disk.size_update]; exact hm.file_lt
  · rw [flush, hm.image_update, Image.length_flush]; exact hm.length_eq
  · intro i _ hi
    rw [flush, hm.image_update, Image.get_flush_of_lt (hm.length_eq ▸ hi)]

/-! ## The cursor -/

theorem loadCursor_iff (hm : l.Mounted d) {c : Nat} :
    l.loadCursor d = .ok c ↔ (d.image l.file).Headed c ∧ c ≤ l.capacity := by
  have hcap := hm.head_le
  have hr : l.read d 0 headSize = .ok ((d.image l.file).read 0 headSize) := read_ok (by omega)
  have head : 0 < headSize := by decide
  unfold loadCursor Image.Headed
  rw [hr]
  simp only [← Image.rawCursor.eq_1]
  generalize (d.image l.file).rawCursor = raw
  by_cases h0 : raw = 0
  · simp only [h0, if_true, Except.ok.injEq, true_and]
    omega
  rw [if_neg h0]
  by_cases hneg : raw < 0
  · simp only [hneg, if_true, reduceCtorEq, false_iff]
    omega
  rw [if_neg hneg]
  by_cases hout : raw.toNat < headSize ∨ l.capacity < raw.toNat
  · simp only [hout, if_true, reduceCtorEq, false_iff]
    omega
  · simp only [hout, if_false, Except.ok.injEq]
    omega

/-- A stored cursor is written into the header, and that is flushed. -/
theorem storeCursor_iff {c : Nat} : l.storeCursor d c = .ok d' ↔ c ≤ maxSigned ∧ headSize ≤ l.capacity ∧
    d' = (d.update l.file (·.write 0 (int64Bytes (Int64.ofNat c)))).update l.file (·.flush headSize) := by
  have hl : 0 + (int64Bytes (Int64.ofNat c)).length = headSize := (Nat.zero_add _).trans (length_int64Bytes _)
  unfold storeCursor
  by_cases hc : maxSigned < c
  · simp [hc, Nat.not_le.mpr hc]
  · rw [if_neg hc]
    cases hw : l.write d 0 (int64Bytes (Int64.ofNat c)) with
    | error e =>
      have hcap : ¬headSize ≤ l.capacity := fun hcap => nomatch hw.symm.trans (write_ok (hl ▸ hcap))
      simp [Except.map, hcap]
    | ok dw =>
      obtain ⟨hcap, rfl⟩ := write_iff.mp hw
      simp [Except.map, Nat.not_lt.mp hc, hl ▸ hcap, eq_comm]

/-- Storing a cursor that fits succeeds, and changes the header alone. -/
theorem storeCursor_spec (hm : l.Mounted d) {c : Nat} (hc : c ≤ maxSigned) :
    ∃ d', l.storeCursor d c = .ok d' ∧ l.Mounted d' ∧ d.OnlyAt l.file d' ∧
      (headSize ≤ c → (d'.image l.file).Headed c) ∧
      Image.Keeps headSize l.capacity (d.image l.file) (d'.image l.file) := by
  have hcap := hm.head_le
  have hl : (int64Bytes (Int64.ofNat c)).length = headSize := length_int64Bytes _
  obtain ⟨d', hw, hm', ho, hi⟩ := write_spec hm 0 (int64Bytes (Int64.ofNat c)) (by omega)
  have hlen : (d'.image l.file).length = l.capacity := hm'.length_eq
  have himage : (d'.update l.file (·.flush headSize)).image l.file = (d'.image l.file).flush headSize :=
    hm'.image_update _
  have hkeep : Image.Keeps 0 l.capacity (d'.image l.file) ((d'.image l.file).flush headSize) :=
    fun i _ h => Image.get_flush_of_lt (hlen ▸ h) _
  refine ⟨d'.update l.file (·.flush headSize), ?_, ?_, ho.trans (.update _), ?_, ?_⟩
  · rw [storeCursor, if_neg (by omega), hw]
    rfl
  · exact ⟨by rw [Disk.size_update]; exact hm'.file_lt, by rw [himage, Image.length_flush]; exact hlen, hcap⟩
  · intro hh
    rw [himage]
    refine Image.Headed.congr (hkeep.mono (Nat.le_refl _) hcap) (.inr ⟨?_, hh⟩)
    have hread := Image.read_write (d.image l.file) 0 (int64Bytes (Int64.ofNat c))
    rw [hl] at hread
    rw [Image.rawCursor, hi, hread, int64_round_trip, toInt_ofNat hc]
  · rw [himage]
    refine .trans ?_ (hkeep.mono (Nat.zero_le _) (Nat.le_refl _))
    rw [hi]
    exact Image.keeps_write_above (by omega)

theorem storeCursor_ok (hm : l.Mounted d) {c : Nat} (h : l.storeCursor d c = .ok d') :
    l.Mounted d' ∧ d.OnlyAt l.file d' ∧ (headSize ≤ c → (d'.image l.file).Headed c) ∧
      Image.Keeps headSize l.capacity (d.image l.file) (d'.image l.file) := by
  obtain ⟨d'', h', hrest⟩ := storeCursor_spec hm (storeCursor_iff.mp h).1
  rw [h] at h'
  cases h'
  exact hrest

/-! ## Growth -/

variable {space : Volume.Space} {required : Nat} {grew : Bool}

/-- A growth that is needed makes the file as long as the doubled capacity, or as long as is required. -/
theorem grow_iff :
    l.grow space d required = .ok (grew, l', d') ↔
      required ≤ l.capacity ∧ (grew, l', d') = (false, l, d) ∨
      l.capacity < required ∧ checkSpace space l.path (l.grownCapacity required) = .ok () ∧
        (grew, l', d') = (true, { l with capacity := l.grownCapacity required },
          d.update l.file (·.resize (l.grownCapacity required))) := by
  unfold grow
  by_cases h : required ≤ l.capacity
  · simp [h, Nat.not_lt.mpr h, eq_comm]
  · simp only [h, if_false, false_and, false_or, Nat.lt_of_not_le h, true_and]
    cases checkSpace space l.path (l.grownCapacity required) with
    | error e => simp
    | ok => simp [eq_comm]

/-- A growth is refused only where the log is too short and there is no room for it. -/
theorem grow_refused {e : Fault} (h : l.grow space d required = .error e) :
    l.capacity < required ∧ checkSpace space l.path (l.grownCapacity required) = .error e := by
  unfold grow at h
  split at h
  · cases h
  · rename_i hshort
    dsimp only at h
    split at h
    · rename_i hcheck
      cases h
      exact ⟨Nat.lt_of_not_le hshort, hcheck⟩
    · cases h

theorem grow_fits (h : l.grow space d required = .ok (grew, l', d')) : required ≤ l'.capacity := by
  rcases grow_iff.mp h with ⟨hfits, heq⟩ | ⟨-, -, heq⟩
  · cases heq
    exact hfits
  · cases heq
    exact Nat.le_max_right ..

/-- A log that has grown holds what is required; nothing below its old capacity changes. -/
theorem grow_spec (hm : l.Mounted d) (h : l.grow space d required = .ok (grew, l', d')) :
    l'.file = l.file ∧ l'.path = l.path ∧ l.capacity ≤ l'.capacity ∧ required ≤ l'.capacity ∧ l'.Mounted d' ∧
      d.OnlyAt l.file d' ∧ Image.Keeps 0 l.capacity (d.image l.file) (d'.image l.file) := by
  rcases grow_iff.mp h with ⟨hfits, heq⟩ | ⟨hshort, -, heq⟩
  · cases heq
    exact ⟨rfl, rfl, Nat.le_refl _, hfits, hm, .refl, .refl⟩
  · cases heq
    have hle : required ≤ l.grownCapacity required := Nat.le_max_right ..
    have hcap := hm.head_le
    refine ⟨rfl, rfl, by show l.capacity ≤ l.grownCapacity required; omega, hle, ⟨?_, ?_, ?_⟩, .update _, ?_⟩
    · rw [Disk.size_update]; exact hm.file_lt
    · show ((d.update l.file _).image l.file).length = _
      rw [hm.image_update, Image.length_resize]
    · show headSize ≤ l.grownCapacity required
      omega
    · intro i _ hi
      rw [hm.image_update, Image.get_resize, if_pos ⟨hm.length_eq ▸ hi, by omega⟩]

end Log

end TwinLog
