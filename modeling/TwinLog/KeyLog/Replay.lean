/-
  TwinLog.KeyLog.Replay — the directory read back from the records on disk.

  Records are read from the first offset after the header up to the cursor on disk, the
  bound. A header whose key offset is zero ends the reading early; so does the bound,
  which has to fall between two records. What lies past the bound was never committed,
  or was rolled back, and is not looked at.

  A record is checked in a fixed order: its header is complete, its key offset follows
  the header, no number is negative, the key ends within the bound, the key is text,
  and the key was not there before.

  It follows `replay` and `decode_entry`, and `open` of `BlobIndex`.
-/

import TwinLog.KeyLog.Basic

namespace TwinLog

def textOf (bs : List UInt8) : Option String := String.fromUTF8? ⟨bs.toArray⟩

namespace KeyLog

/-- The entry of a record at `position` whose key is read by `key`. -/
def decodeEntry (position bound : Nat) (h : Header) (key : Nat → Nat → Except Fault (List UInt8)) :
    Except Fault Entry :=
  let flawed := fun flaw => Except.error (.corruption (.badRecord position flaw h))
  let keyOffset := position + Header.width
  if h.keyOffset.toInt ≠ keyOffset then flawed .keyElsewhere
  else if h.keySize.toInt < 0 then flawed .negativeKeySize
  else if h.size.toInt < 0 then flawed .negativeSize
  else if h.offset.toInt < 0 then flawed .negativeOffset
  else if bound < keyOffset + h.keySize.toInt.toNat then flawed .keyPastCursor
  else match key keyOffset h.keySize.toInt.toNat with
    | .error e => .error e
    | .ok bs => match textOf bs with
      | none => flawed .keyNotText
      | some key => .ok ⟨key, keyOffset, h.size.toInt.toNat, h.offset.toInt.toNat, h.checksum⟩

/-- The records from `position` to `bound`, after those of `seen` (last first). -/
def replayFrom (log : Log) (d : Disk) (bound : Nat) (seen : Directory) (position : Nat) : Except Fault Directory :=
  if position < bound then
    if bound < position + Header.width then .error (.corruption (.truncatedHeader position bound))
    else match log.read d position Header.width with
      | .error e => .error e
      | .ok bs =>
        let header := Header.decode bs
        if header.isEnd then .ok seen.reverse
        else match decodeEntry position bound header (log.read d) with
          | .error e => .error e
          | .ok entry =>
            if seen.contains entry.key then .error (.corruption (.recordedTwice entry.key))
            else replayFrom log d bound (entry :: seen) (position + Header.width + entry.keySize)
  else .ok seen.reverse
termination_by bound - position
decreasing_by
  simp only [Header.width]
  omega

def replay (log : Log) (d : Disk) (bound : Nat) : Except Fault Directory := replayFrom log d bound [] headSize

def openAt (v : Volume) (path : String) (capacity : Nat) : Except Fault KeyLog × Volume :=
  match Log.openAt v path capacity with
  | .error e => (.error e, v)
  | .ok (log, v) => match log.loadCursor v.disk with
    | .error e => (.error e, v)
    | .ok cursor => match replay log v.disk cursor with
      | .error e => (.error e, v)
      | .ok directory => (.ok ⟨log, cursor, cursor, directory⟩, v)

end KeyLog

end TwinLog
