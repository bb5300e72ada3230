/-
  TwinLog.Location — where a blob lies in the content log, and what it should hash to.

  A checksum is the first 16 bytes of the BLAKE3 hash. A location is a plain value: it
  stays good when the log grows.

  It follows `Checksum` and `ContentLocation`, whose `end` is `finish`. The checksum of a
  reader (`of_reader`) stands with the sources (`Checksum.ofSource`).
-/

import TwinLog.Digest.Blake3
import TwinLog.Text.Messages

namespace TwinLog

structure Checksum where
  bytes : Vector UInt8 16
  deriving DecidableEq

namespace Checksum

def size : Nat := 16

/-- The first 16 bytes of `bs`, or zeros where it is shorter. -/
def ofBytes (bs : List UInt8) : Checksum :=
  let a := bs.toArray
  ⟨Vector.ofFn fun i => a[i.val]?.getD 0⟩

def toBytes (c : Checksum) : List UInt8 := c.bytes.toList

def of (data : List UInt8) : Checksum := ofBytes (Blake3.digest data)

/-- All zeros: the slot of a record that was never given one. -/
def zero : Checksum := ofBytes []

instance : Inhabited Checksum := ⟨zero⟩

def text (c : Checksum) : String := Text.hex c.toBytes

/-- The bytes as decimal numbers, the form error texts use. -/
def listed (c : Checksum) : String := "Checksum([" ++ ", ".intercalate (c.toBytes.map toString) ++ "])"

@[simp] theorem length_toBytes (c : Checksum) : c.toBytes.length = 16 := by simp [toBytes]

theorem toBytes_ofBytes {bs : List UInt8} (h : bs.length = 16) : (ofBytes bs).toBytes = bs := by
  apply List.ext_getElem
  · rw [length_toBytes, h]
  · intro i hi hb
    simp [toBytes, ofBytes, hb]

theorem ofBytes_toBytes (c : Checksum) : ofBytes c.toBytes = c := by
  cases c with
  | mk v =>
    simp only [ofBytes, toBytes, mk.injEq]
    ext i
    simp

end Checksum

structure Location where
  /-- Number of content bytes. -/
  size : Nat
  /-- Offset of the first content byte in the file. -/
  offset : Nat
  checksum : Checksum
  deriving DecidableEq, Inhabited

def Location.finish (l : Location) : Nat := l.offset + l.size

end TwinLog
