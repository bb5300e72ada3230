/-
  TwinLog.Disk — the bytes of files, by file number.

  A file number stays good whatever happens to the names of the file: two opens of one
  file share its bytes, and a file whose last name is gone can still be read and written.
  Names are the business of `TwinLog.Volume`.

  A file is used in two ways. Whoever reads or patches it goes by its length. Whoever has
  it mapped into memory sees it a memory page at a time, and the last page reaches past
  the length: what is written there is seen through every mapping of the file and by
  nobody who reads it. It is lost when the page goes to disk (`flush`) and when the
  length is set (`resize`).

  - `get_write`: a byte is the one last written there; writing keeps the length.
  - `get_flush_of_lt`: going to disk keeps every byte below the length.
  - `get_resize`: setting the length keeps what lies below both lengths, the rest is zero.

  It stands for the files that a `LogFile` maps and a `Content` is read from. Left out are
  failures to map, resize or flush a file, and what a power loss leaves of a page.
-/

import TwinLog.Bytes.Sparse

namespace TwinLog

/-- The contents of one file: zero wherever nothing was written. -/
structure Image where
  bytes : Sparse := .empty
  length : Nat := 0
  deriving Inhabited

namespace Image

/-- Bytes of a memory page. -/
def memoryPage : Nat := 4096

def ofList (bs : List UInt8) : Image := ⟨.ofList bs, bs.length⟩

/-! ## Through memory -/

def get (im : Image) (i : Nat) : UInt8 := im.bytes.get i

def read (im : Image) (offset n : Nat) : List UInt8 := im.bytes.read offset n

/-- Overwrite in place; the length stays. -/
def write (im : Image) (offset : Nat) (bs : List UInt8) : Image := { im with bytes := im.bytes.write offset bs }

/-- The pages that hold the first `size` bytes go to disk. If the page at the end of the
    file is one of them, what it holds past the length is lost. -/
def flush (im : Image) (size : Nat) : Image :=
  if im.length / memoryPage * memoryPage < size then { im with bytes := im.bytes.truncate im.length } else im

/-! ## Through the file -/

/-- Set the length to `n`: bytes past it are gone, new ones are zero. -/
def resize (im : Image) (n : Nat) : Image := ⟨im.bytes.truncate (min im.length n), n⟩

/-- Lengthen with zeros up to `n` bytes; never shortens. -/
def extend (im : Image) (n : Nat) : Image := if im.length < n then im.resize n else im

/-- At most `n` bytes from `offset` on, as far as the file goes. -/
def readUpTo (im : Image) (offset n : Nat) : List UInt8 := im.read offset (min n (im.length - offset))

/-- Overwrite part of the file, lengthening it where needed; a gap before `offset` is
    filled with zeros. -/
def patch (im : Image) (offset : Nat) (bs : List UInt8) : Image :=
  if bs.isEmpty then im
  else ⟨(im.bytes.clear im.length offset).write offset bs, max im.length (offset + bs.length)⟩

/-! ## What each operation does to the bytes -/

theorem get_write (im : Image) (offset : Nat) (bs : List UInt8) (i : Nat) :
    (im.write offset bs).get i = if offset ≤ i then bs[i - offset]?.getD (im.get i) else im.get i :=
  Sparse.get_write ..

@[simp] theorem length_write (im : Image) (offset : Nat) (bs : List UInt8) :
    (im.write offset bs).length = im.length := rfl

theorem get_flush_of_lt {im : Image} {i : Nat} (h : i < im.length) (size : Nat) : (im.flush size).get i = im.get i := by
  unfold flush
  split
  · simp [get, Sparse.get_truncate, h]
  · rfl

@[simp] theorem length_flush (im : Image) (size : Nat) : (im.flush size).length = im.length := by
  unfold flush
  split <;> rfl

theorem get_resize (im : Image) (n i : Nat) :
    (im.resize n).get i = if i < im.length ∧ i < n then im.get i else 0 := by
  simp only [get, resize, Sparse.get_truncate, Nat.lt_min]

@[simp] theorem length_resize (im : Image) (n : Nat) : (im.resize n).length = n := rfl

@[simp] theorem length_extend (im : Image) (n : Nat) : (im.extend n).length = max im.length n := by
  unfold extend
  split
  · rw [length_resize]; omega
  · omega

theorem get_extend {im : Image} {i n : Nat} (h : i < (im.extend n).length) :
    (im.extend n).get i = if i < im.length then im.get i else 0 := by
  rw [length_extend] at h
  unfold extend
  split
  · have hn : i < n := by omega
    simp only [get_resize, hn, and_true]
  · rw [if_pos (by omega)]

theorem get_extend_of_lt {im : Image} {i : Nat} (h : i < im.length) (n : Nat) : (im.extend n).get i = im.get i := by
  rw [get_extend (by rw [length_extend]; omega), if_pos h]

end Image

abbrev FileId : Type := Nat

structure Disk where
  files : Array Image := #[]
  deriving Inhabited

namespace Disk

def image (d : Disk) (f : FileId) : Image := d.files[f]?.getD {}

def update (d : Disk) (f : FileId) (change : Image → Image) : Disk := ⟨d.files.modify f change⟩

/-- A new file; its number is the one after all others. -/
def add (d : Disk) (im : Image) : FileId × Disk := (d.files.size, ⟨d.files.push im⟩)

theorem image_update_self (d : Disk) {f : FileId} (h : f < d.files.size) (change : Image → Image) :
    (d.update f change).image f = change (d.image f) := by
  simp [image, update, Array.getElem_modify, h]

theorem image_update_ne (d : Disk) {f g : FileId} (h : f ≠ g) (change : Image → Image) :
    (d.update f change).image g = d.image g := by
  simp [image, update, Array.getElem?_modify, h]

@[simp] theorem size_update (d : Disk) (f : FileId) (change : Image → Image) :
    (d.update f change).files.size = d.files.size := by simp [update]

end Disk

end TwinLog
