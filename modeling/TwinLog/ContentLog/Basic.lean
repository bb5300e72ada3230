/-
  TwinLog.ContentLog.Basic — the append-only log of blobs.

  Blobs lie back to back after the cursor header and nothing is written twice. An append
  first reserves its range by moving the cursor, so appends that overlap in time get
  disjoint ranges; until it is over its range is pending, and a location that touches a
  pending range is not readable. Pending ranges are listed in order of their starts:
  a new one always starts at the cursor, past all others.

  Committing stores the cursor in the header, rolling back stores the cursor the session
  began with; neither moves the cursor in memory, so a range is never handed out twice.

  It follows `BlobStore` without its appends: `open`, `get`, `commit`, `rollback`,
  `close`, and `reserve`, `release`, `check_readable` and `ensure_capacity`. Left out are
  its locks. What runs under one of them is one operation here, and operations of several
  threads come in any order (`TwinLog.Proofs.ContentLog.Traffic`).
-/

import TwinLog.Location
import TwinLog.Log

namespace TwinLog

structure Span where
  start : Nat
  finish : Nat
  deriving DecidableEq, Repr, Inhabited

structure ContentLog where
  log : Log
  /-- Next free byte. -/
  cursor : Nat
  /-- The cursor that the header held when the session began. -/
  checkpoint : Nat
  pending : List Span
  /-- Bytes streamed at a time. -/
  bufferSize : Nat
  bufferSize_pos : 0 < bufferSize
  deriving DecidableEq

namespace ContentLog

def openAt (v : Volume) (path : String) (capacity bufferSize : Nat) : Except Fault ContentLog × Volume :=
  if positive : 0 < bufferSize then
    match Log.openAt v path capacity with
    | .error e => (.error e, v)
    | .ok (log, v) => match log.loadCursor v.disk with
      | .error e => (.error e, v)
      | .ok cursor => (.ok ⟨log, cursor, cursor, [], bufferSize, positive⟩, v)
  else (.error (.invalidArgument .zeroBuffer), v)

def capacity (c : ContentLog) : Nat := c.log.capacity

/-! ## Ranges -/

/-- Move the cursor over `size` bytes and register them as pending. The end has to fit
    the signed cursor on disk. -/
def reserve (c : ContentLog) (size : Nat) : Except Fault (Nat × ContentLog) :=
  if c.cursor + size ≤ maxSigned then
    let pending := if size = 0 then c.pending else c.pending ++ [⟨c.cursor, c.cursor + size⟩]
    .ok (c.cursor, { c with cursor := c.cursor + size, pending })
  else .error (.invalidArgument (.contentTooLong size c.cursor))

def release (c : ContentLog) (s : Span) : ContentLog :=
  if s.start < s.finish then { c with pending := c.pending.filter (·.start ≠ s.start) } else c

/-- Release a range that was never used; the cursor returns to its start if nothing was
    reserved after it. -/
def giveBack (c : ContentLog) (s : Span) : ContentLog :=
  release { c with cursor := if c.cursor = s.finish then s.start else c.cursor } s

def ensure (c : ContentLog) (space : Volume.Space) (d : Disk) (finish : Nat) : Except Fault (ContentLog × Disk) :=
  (c.log.grow space d finish).map fun (_, log, d) => ({ c with log }, d)

/-! ## Reading -/

def lastBefore (c : ContentLog) (finish : Nat) : Option Span := (c.pending.filter (·.start < finish)).getLast?

def checkReadable (c : ContentLog) (l : Location) : Except Fault Unit :=
  if l.offset < headSize ∨ c.cursor < l.finish then
    .error (.invalidArgument (.outsideContent l.offset l.size c.cursor))
  else match c.lastBefore l.finish with
    | some s => if l.offset < s.finish then .error (.invalidArgument (.stillWritten l.offset l.size)) else .ok ()
    | none => .ok ()

/-- The bytes of a location. An empty one is always readable. -/
def get (c : ContentLog) (d : Disk) (l : Location) : Except Fault (List UInt8) :=
  if l.size = 0 then .ok []
  else match c.checkReadable l with
    | .error e => .error e
    | .ok () => c.log.read d l.offset l.size

/-! ## The cursor on disk -/

/-- Store the cursor once the content is on disk. After a growth that failed it can lie past
    the end of the file; the end is stored then. -/
def commit (c : ContentLog) (d : Disk) : Except Fault Disk :=
  c.log.storeCursor (c.log.flush d) (min c.cursor c.capacity)

def rollback (c : ContentLog) (d : Disk) : Except Fault Disk := c.log.storeCursor d c.checkpoint

/-- Let go of the log. Its bytes go to disk, the cursor does not. -/
def close (c : ContentLog) (d : Disk) : Disk := c.log.flush d

end ContentLog

end TwinLog
