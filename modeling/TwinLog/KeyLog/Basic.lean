/-
  TwinLog.KeyLog.Basic — the index: an append-only log of keys and where their blobs lie,
  with all of it in memory.

  The directory lists its entries in the order of their records, so the records on disk,
  from the first offset after the header to the cursor, are the directory written out.
  A key is recorded once and never changed.

  Committing stores the cursor; rolling back stores the cursor the session began with
  and leaves directory and cursor in memory as they are, so that this session goes on
  answering for keys that the next one will not find.

  It follows `BlobIndex`, `IndexEntry` and `KeyRecord`; how it opens is in
  `TwinLog.KeyLog.Replay`. The directory is a list where that has a hash map, of whose
  order nothing shows. Left out are `len`, `is_empty` and `entry`, which nothing here asks
  for.
-/

import TwinLog.KeyLog.Header
import TwinLog.Location
import TwinLog.Log

namespace TwinLog

structure Entry where
  key : String
  /-- Absolute offset of the key's bytes in the index file. -/
  keyOffset : Nat
  location : Location
  deriving DecidableEq, Inhabited

namespace Entry

def keySize (e : Entry) : Nat := e.key.utf8ByteSize

def finish (e : Entry) : Nat := e.keyOffset + e.keySize

end Entry

abbrev Directory : Type := List Entry

namespace Directory

def find? (dir : Directory) (key : String) : Option Entry := List.find? (·.key == key) dir

def contains (dir : Directory) (key : String) : Bool := List.any dir (·.key == key)

def keys (dir : Directory) : List String := dir.map (·.key)

end Directory

structure KeyLog where
  log : Log
  /-- Next free byte. -/
  cursor : Nat
  /-- The cursor that the header held when the session began. -/
  checkpoint : Nat
  directory : Directory
  deriving DecidableEq, Inhabited

def maxKeySize : Nat := 2147483647

def keyBytes (key : String) : List UInt8 := key.toUTF8.data.toList

namespace KeyLog

def capacity (k : KeyLog) : Nat := k.log.capacity

def get (k : KeyLog) (key : String) : Except Fault Location :=
  if key = "" then .error (.invalidArgument .emptyKey)
  else match k.directory.find? key with
    | some e => .ok e.location
    | none => .error (.keyNotFound key)

def contains (k : KeyLog) (key : String) : Bool := k.directory.contains key

/-- The header of a record; every number has to fit its signed field. -/
def headerFor (keyOffset keySize : Nat) (l : Location) : Except Fault Header :=
  match toSigned keyOffset, toSigned l.size, toSigned l.offset with
  | .ok keyOffset, .ok size, .ok offset => .ok ⟨keyOffset, Int32.ofNat keySize, size, offset, l.checksum⟩
  | .error e, _, _ => .error e
  | _, .error e, _ => .error e
  | _, _, .error e => .error e

/-- Record a key. The log is made to fit before the location is checked, so a location
    that is refused may leave a longer file behind. -/
def add (k : KeyLog) (space : Volume.Space) (d : Disk) (key : String) (l : Location) :
    Except Fault Unit × KeyLog × Disk :=
  if key = "" then (.error (.invalidArgument .emptyKey), k, d)
  else if k.directory.contains key then (.error (.duplicateKey key), k, d)
  else if maxKeySize < key.utf8ByteSize then (.error (.invalidArgument (.keyTooLong key.utf8ByteSize)), k, d)
  else
    let entry : Entry := ⟨key, k.cursor + Header.width, l⟩
    match k.log.grow space d entry.finish with
    | .error e => (.error e, k, d)
    | .ok (_, log, d) => match headerFor entry.keyOffset entry.keySize l with
      | .error e => (.error e, { k with log }, d)
      | .ok header => match log.write d k.cursor (header.encode ++ keyBytes key) with
        | .error e => (.error e, { k with log }, d)
        | .ok d => (.ok (), { k with log, cursor := entry.finish, directory := k.directory ++ [entry] }, d)

def commit (k : KeyLog) (d : Disk) : Except Fault Disk := k.log.storeCursor (k.log.flush d) k.cursor

def rollback (k : KeyLog) (d : Disk) : Except Fault Disk := k.log.storeCursor d k.checkpoint

/-- Let go of the log. Its records go to disk, the cursor does not. -/
def close (k : KeyLog) (d : Disk) : Disk := k.log.flush d

end KeyLog

end TwinLog
