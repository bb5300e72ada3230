/-
  TwinLog.KeyLog.Gate — one index used by many callers, one at a time.

  A call waits for its turn no longer than the gate's timeout; if another call is still
  inside by then, it fails and has not touched the index. `entered` counts the calls
  that got in. A held call is one that got in and has not run yet: `hold` lets it in,
  `letGo` runs it.

  It follows `IndexGuard` over `BlobIndex`. Left out are the line it logs and who of those
  that wait comes next: `TwinLog.Proofs.KeyLog.Crowd` has callers in any order.
-/

import TwinLog.KeyLog.Replay

namespace TwinLog

structure Gate where
  index : KeyLog
  timeout : Duration
  /-- The add that is inside and has not run. -/
  held : Option (String × Location)
  entered : Nat
  deriving DecidableEq, Inhabited

namespace Gate

def ofIndex (index : KeyLog) (timeout : Duration) : Gate := ⟨index, timeout, none, 0⟩

/-- Run `f` on the index if nobody is inside. -/
def call {α : Type} (g : Gate) (d : Disk) (f : KeyLog → Disk → Except Fault α × KeyLog × Disk) :
    Except Fault α × Gate × Disk :=
  match g.held with
  | some _ => (.error (.timedOut g.timeout), g, d)
  | none =>
    let (r, index, d) := f g.index d
    (r, { g with index, entered := g.entered + 1 }, d)

def add (g : Gate) (space : Volume.Space) (d : Disk) (key : String) (l : Location) : Except Fault Unit × Gate × Disk :=
  g.call d fun k d => k.add space d key l

def get (g : Gate) (d : Disk) (key : String) : Except Fault Location × Gate × Disk :=
  g.call d fun k d => (k.get key, k, d)

def contains (g : Gate) (d : Disk) (key : String) : Except Fault Bool × Gate × Disk :=
  g.call d fun k d => (.ok (k.contains key), k, d)

/-- A header write, which changes the disk alone. -/
def storing (store : KeyLog → Disk → Except Fault Disk) (k : KeyLog) (d : Disk) : Except Fault Unit × KeyLog × Disk :=
  match store k d with
  | .error e => (.error e, k, d)
  | .ok d => (.ok (), k, d)

def commit (g : Gate) (d : Disk) : Except Fault Unit × Gate × Disk := g.call d (storing KeyLog.commit)

def rollback (g : Gate) (d : Disk) : Except Fault Unit × Gate × Disk := g.call d (storing KeyLog.rollback)

def hold (g : Gate) (key : String) (l : Location) : Except Fault Unit × Gate :=
  match g.held with
  | some _ => (.error (.timedOut g.timeout), g)
  | none => (.ok (), { g with held := some (key, l), entered := g.entered + 1 })

def letGo (g : Gate) (space : Volume.Space) (d : Disk) : Option (Except Fault Unit) × Gate × Disk :=
  match g.held with
  | none => (none, g, d)
  | some (key, l) =>
    let (r, index, d) := g.index.add space d key l
    (some r, { g with index, held := none }, d)

end Gate

end TwinLog
