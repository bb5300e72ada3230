/-
  TwinLog.Bytes.Sparse — byte memory that is zero wherever nothing was written.

  A memory is a row of pages of 256 bytes. A page holds its bytes up to the last one
  written, the row its pages up to the last one touched, and all beyond reads zero: a
  file of a gigabyte that holds three bytes costs one page and the row before it.

  `get` is the view: every other operation is stated through it.
  - `get_set` / `get_write`: a byte is the one last written there.
  - `read_write_self`: a range just written reads back.
  - `get_truncate` / `get_clear`: a byte that is taken away is zero, every other is kept.

  No part of the store keeps bytes so: this stands for the file that a `LogFile` maps.
-/

namespace TwinLog

/-! ## Rows with a fill value -/

def putAt {α : Type} (a : Array α) (fill : α) (i : Nat) (x : α) : Array α :=
  if i < a.size then a.setIfInBounds i x else (a ++ Array.replicate (i - a.size) fill).push x

theorem getD_putAt {α : Type} (a : Array α) (fill : α) (i : Nat) (x : α) (j : Nat) :
    (putAt a fill i x)[j]?.getD fill = if j = i then x else a[j]?.getD fill := by
  unfold putAt
  split
  · rename_i h
    rw [Array.getElem?_setIfInBounds]
    by_cases e : i = j
    · subst e; simp [h]
    · simp [e, Ne.symm e]
  · rename_i h
    rw [Array.getElem?_push]
    have hs : (a ++ Array.replicate (i - a.size) fill).size = i := by simp; omega
    rw [hs]
    by_cases e : j = i
    · simp [e]
    · simp only [e, if_false]
      rw [Array.getElem?_append]
      split
      · rfl
      · rename_i hj
        rw [Array.getElem?_replicate, Array.getElem?_eq_none (by omega)]
        split <;> rfl

/-! ## Sparse memory -/

structure Sparse where
  pages : Array (Array UInt8) := #[]
  deriving Inhabited

namespace Sparse

def pageSize : Nat := 256

def empty : Sparse := {}

def get (s : Sparse) (i : Nat) : UInt8 := (s.pages[i / pageSize]?.getD #[])[i % pageSize]?.getD 0

def set (s : Sparse) (i : Nat) (b : UInt8) : Sparse :=
  let page := s.pages[i / pageSize]?.getD #[]
  ⟨putAt s.pages #[] (i / pageSize) (putAt page 0 (i % pageSize) b)⟩

def write (s : Sparse) (i : Nat) : List UInt8 → Sparse
  | [] => s
  | b :: r => (s.set i b).write (i + 1) r

def read (s : Sparse) (i n : Nat) : List UInt8 := (List.range' i n).map s.get

def extent (s : Sparse) : Nat := s.pages.size * pageSize

def truncate (s : Sparse) (n : Nat) : Sparse :=
  if s.extent ≤ n then s else ⟨s.pages.mapIdx fun p page => page.extract 0 (n - p * pageSize)⟩

def clear (s : Sparse) (first last : Nat) : Sparse := s.write first (List.replicate (min last s.extent - first) 0)

def ofList (bs : List UInt8) : Sparse := empty.write 0 bs

@[simp] theorem get_empty (i : Nat) : empty.get i = 0 := by simp [empty, get]

theorem get_set (s : Sparse) (i : Nat) (b : UInt8) (j : Nat) : (s.set i b).get j = if j = i then b else s.get j := by
  simp only [get, set, getD_putAt]
  by_cases hp : j / pageSize = i / pageSize
  · simp only [hp, if_true, getD_putAt]
    by_cases e : j = i
    · simp [e]
    · have hm : j % pageSize ≠ i % pageSize := fun hm => e (by
        rw [← Nat.div_add_mod j pageSize, ← Nat.div_add_mod i pageSize, hp, hm])
      simp [e, hm]
  · have e : j ≠ i := fun e => hp (by rw [e])
    simp [e, hp]

/-- A byte of the written range is the one written there; every other byte is kept. -/
theorem get_write (s : Sparse) (i : Nat) (bs : List UInt8) (j : Nat) :
    (s.write i bs).get j = if i ≤ j then bs[j - i]?.getD (s.get j) else s.get j := by
  induction bs generalizing s i with
  | nil => simp [write]
  | cons b r ih =>
    rw [write, ih, get_set]
    by_cases e : j = i
    · subst e
      have h : ¬ j + 1 ≤ j := by omega
      simp [h]
    · by_cases h : i ≤ j
      · have h' : i + 1 ≤ j := by omega
        have hk : j - i = (j - (i + 1)) + 1 := by omega
        simp [h, h', e, hk]
      · have h' : ¬ i + 1 ≤ j := by omega
        simp [h, h', e]

theorem get_of_extent_le {s : Sparse} {i : Nat} (h : s.extent ≤ i) : s.get i = 0 := by
  have : s.pages.size ≤ i / pageSize := (Nat.le_div_iff_mul_le (by decide)).mpr h
  simp [get, Array.getElem?_eq_none this]

theorem get_truncate (s : Sparse) (n i : Nat) : (s.truncate n).get i = if i < n then s.get i else 0 := by
  unfold truncate
  split
  · rename_i he
    split
    · rfl
    · exact get_of_extent_le (by omega)
  have hi : i = i / pageSize * pageSize + i % pageSize := by rw [Nat.mul_comm, Nat.div_add_mod]
  simp only [get, Array.getElem?_mapIdx]
  cases s.pages[i / pageSize]? with
  | none => simp
  | some page =>
    simp only [Option.map_some, Option.getD_some, Array.getElem?_extract]
    by_cases h : i < n
    · have hlt : i % pageSize < n - i / pageSize * pageSize := by omega
      simp only [h, if_true, Nat.zero_add, Nat.sub_zero]
      by_cases hp : i % pageSize < page.size
      · have : i % pageSize < min (n - i / pageSize * pageSize) page.size := Nat.lt_min.mpr ⟨hlt, hp⟩
        simp only [this, if_true]
      · have : ¬ i % pageSize < min (n - i / pageSize * pageSize) page.size := by omega
        simp [this, Array.getElem?_eq_none (Nat.le_of_not_lt hp)]
    · have : ¬ i % pageSize < min (n - i / pageSize * pageSize) page.size := by omega
      simp [h, this]

theorem get_clear (s : Sparse) (first last i : Nat) :
    (s.clear first last).get i = if first ≤ i ∧ i < last then 0 else s.get i := by
  rw [clear, get_write]
  by_cases hf : first ≤ i
  · by_cases hl : i < last
    · by_cases he : i < s.extent
      · have : i - first < min last s.extent - first := by omega
        simp [hf, hl, this]
      · have : ¬ i - first < min last s.extent - first := by omega
        simp [hf, hl, this, get_of_extent_le (Nat.le_of_not_lt he)]
    · have : ¬ i - first < min last s.extent - first := by omega
      simp [hf, hl, this]
  · simp [hf]

@[simp] theorem length_read (s : Sparse) (i n : Nat) : (s.read i n).length = n := by simp [read]

theorem getElem?_read (s : Sparse) (i n k : Nat) : (s.read i n)[k]? = if k < n then some (s.get (i + k)) else none := by
  by_cases h : k < n <;> simp [read, h]

theorem read_write_self (s : Sparse) (i : Nat) (bs : List UInt8) : (s.write i bs).read i bs.length = bs := by
  apply List.ext_getElem?
  intro k
  rw [getElem?_read, get_write]
  by_cases h : k < bs.length
  · simp [h]
  · simp [h]

end Sparse

end TwinLog
