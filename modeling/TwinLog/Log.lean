/-
  TwinLog.Log — a log file: a cursor in the first 8 bytes, then data, in a capacity
  that only grows.

  A log has its file mapped into memory up to its capacity, and sets the length of the
  file to its capacity when it is opened and whenever it grows. Every operation checks
  first and then acts, so one that fails leaves the disk as it was. What the file holds
  is on the disk and not in the log: two logs open on one file see each other's bytes,
  and each sets the length as it needs it.

  Growing asks again how much is free where the log lies, by its path.

  The cursor is kept as a signed word. Zero stands for a log that was never committed
  and is read as the first offset after the header.

  It follows `LogFile` with its check for free space. Left out are the lines it logs, and
  failures to map, resize or flush the file: a capacity of 64 bits fits the address space.
-/

import TwinLog.Bytes.Little
import TwinLog.Volume.Files

namespace TwinLog

def maxSigned : Nat := 9223372036854775807

def maxUnsigned : Nat := 18446744073709551615

def toSigned (n : Nat) : Except Fault Int64 :=
  if n ≤ maxSigned then .ok (Int64.ofNat n) else .error (.invalidArgument (.doesNotFit n))

structure Log where
  /-- The path as given, for error texts. -/
  path : String
  file : FileId
  capacity : Nat
  deriving DecidableEq, Inhabited

namespace Log

def checkSpace (space : Volume.Space) (path : String) (required : Nat) : Except Fault Unit :=
  match space path with
  | .error e => .error (.io e)
  | .ok available => if available < required then .error (.noSpace required available) else .ok ()

def mount (path : String) (file : FileId) (capacity : Nat) (d : Disk) : Log × Disk :=
  (⟨path, file, capacity⟩, d.update file (·.extend capacity))

/-- Open or make a log file with room for `requested` bytes and the cursor; a longer
    file keeps its length. -/
def openAt (v : Volume) (path : String) (requested : Nat) : Except Fault (Log × Volume) :=
  if maxUnsigned < requested + headSize then .error (.invalidArgument (.capacityOverflow requested))
  else
    let wanted := requested + headSize
    let capacity := match v.length path with
      | .ok n => max wanted n
      | .error _ => wanted
    match checkSpace v.space path capacity with
    | .error e => .error e
    | .ok () => match v.openToWrite path with
      | .error e => .error (.io e)
      | .ok (file, v) =>
        let (log, disk) := mount path file capacity v.disk
        .ok (log, { v with disk })

/-! ## Bytes -/

def checkRange (l : Log) (offset size : Nat) : Except Fault Unit :=
  if offset + size ≤ l.capacity then .ok ()
  else .error (.invalidArgument (.outOfRange offset size l.capacity l.path))

def read (l : Log) (d : Disk) (offset size : Nat) : Except Fault (List UInt8) :=
  match l.checkRange offset size with
  | .error e => .error e
  | .ok () => .ok ((d.image l.file).read offset size)

def write (l : Log) (d : Disk) (offset : Nat) (bs : List UInt8) : Except Fault Disk :=
  match l.checkRange offset bs.length with
  | .error e => .error e
  | .ok () => .ok (d.update l.file (·.write offset bs))

def flush (l : Log) (d : Disk) : Disk := d.update l.file (·.flush l.capacity)

/-! ## The cursor -/

def loadCursor (l : Log) (d : Disk) : Except Fault Nat :=
  match l.read d 0 headSize with
  | .error e => .error e
  | .ok bs =>
    let raw := (int64OfBytes bs).toInt
    if raw = 0 then .ok headSize
    else if raw < 0 then .error (.corruption (.negativeCursor raw l.path))
    else if raw.toNat < headSize ∨ l.capacity < raw.toNat then
      .error (.corruption (.cursorOutside raw.toNat l.capacity l.path))
    else .ok raw.toNat

def storeCursor (l : Log) (d : Disk) (cursor : Nat) : Except Fault Disk :=
  if maxSigned < cursor then .error (.invalidArgument (.cursorTooLarge cursor))
  else (l.write d 0 (int64Bytes (Int64.ofNat cursor))).map fun d => d.update l.file (·.flush headSize)

/-! ## Growth -/

/-- The capacity to grow to: double, or what is required if that is more. -/
def grownCapacity (l : Log) (required : Nat) : Nat := max (min (2 * l.capacity) maxUnsigned) required

/-- Make room for `required` bytes. Says whether the log grew. The length of the file
    becomes the new capacity, even where another log has made the file longer than that. -/
def grow (l : Log) (space : Volume.Space) (d : Disk) (required : Nat) : Except Fault (Bool × Log × Disk) :=
  if required ≤ l.capacity then .ok (false, l, d)
  else
    let capacity := l.grownCapacity required
    match checkSpace space l.path capacity with
    | .error e => .error e
    | .ok () => .ok (true, { l with capacity }, d.update l.file (·.resize capacity))

end Log

end TwinLog
