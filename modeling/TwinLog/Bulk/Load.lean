/-
  TwinLog.Bulk.Load — storing many files and checking them afterwards.

  A file is stored under its path. `load` adds all files and commits, or rolls back and
  reports the failure; `verify` opens the vault again and compares the length and the
  checksum of each file with what is stored. Both use a pool of workers.

  It follows `load`, `add_file`, `verify` and `verify_file` of the loader. Left out are
  the lines it logs and the grouping of its settings in `LoadOptions`; the workers here
  take turns at whole files, and `TwinLog.Proofs.Bulk.Intake` cuts their work into the
  parts of an add.
-/

import TwinLog.Bulk.Pool
import TwinLog.Bulk.Retry
import TwinLog.Vault.Basic

namespace TwinLog

def defaultThreads : Nat := 4

namespace Load

abbrev Site : Type := Vault × Volume

def onDisk {α : Type} (s : Site) (f : Vault → Disk → Except Fault α × Vault × Disk) : Except Fault α × Site :=
  let (r, vault, disk) := f s.1 s.2.disk
  (r, vault, { s.2 with disk })

def leave (s : Site) : Volume :=
  let (_, disk) := s.1.close s.2.disk
  { s.2 with disk }

def addOnce (path : String) (s : Site) : Except Fault Location × Site :=
  match Source.openAt s.2 path 0 with
  | .error e => (.error (.io e), s)
  | .ok src => onDisk s fun vault d => vault.add s.2.space d path src

def addFile (attempts : Nat) (path : String) (s : Site) : Except Fault Unit × Site :=
  let (r, s) := retryTimeouts attempts (addOnce path) s
  (r.map fun _ => (), s)

def fileChecksum (v : Volume) (path : String) : Except IoFault Checksum :=
  (Source.openAt v path 0).bind (Checksum.ofSource v.disk)

def compareFile (v : Volume) (path : String) (stored : List UInt8) (l : Location) : Except Fault Unit :=
  match v.length path with
  | .error e => .error (.io e)
  | .ok size =>
    if size ≠ stored.length then .error (.corruption (.lengthDiffers path size stored.length))
    else match fileChecksum v path with
      | .error e => .error (.io e)
      | .ok sum =>
        if sum ≠ Checksum.of stored ∨ sum ≠ l.checksum then .error (.corruption (.checksumDiffers path)) else .ok ()

def verifyFile (path : String) (s : Site) : Except Fault Unit × Site :=
  match onDisk s fun vault d => vault.get d path with
  | (.error e, s) => (.error e, s)
  | (.ok stored, s) => match onDisk s fun vault d => vault.locate d path with
    | (.error e, s) => (.error e, s)
    | (.ok l, s) => (compareFile s.2 path stored l, s)

def pooled (threads : Nat) (paths : List String) (work : String → Site → Except Fault Unit × Site) (s : Site) :
    Except Fault Unit × Site :=
  let p := (Pool.start threads paths s).run work
  (p.outcome, p.shared)

/-- Add all files, then commit; roll everything back at the first failure. -/
def load (v : Volume) (settings : Settings) (paths : List String) (threads attempts : Nat) :
    Except Fault Unit × Volume :=
  match Vault.openAt v settings with
  | (.error e, v) => (.error e, v)
  | (.ok vault, v) =>
    match pooled threads paths (addFile attempts) (vault, v) with
    | (.ok (), s) =>
      let (r, s) := onDisk s Vault.commit
      (r, leave s)
    | (.error e, s) =>
      let (r, s) := onDisk s Vault.rollback
      (r.bind fun _ => .error e, leave s)

def verify (v : Volume) (settings : Settings) (paths : List String) (threads : Nat) : Except Fault Unit × Volume :=
  match Vault.openAt v settings with
  | (.error e, v) => (.error e, v)
  | (.ok vault, v) =>
    let (r, s) := pooled threads paths verifyFile (vault, v)
    (r, leave s)

end Load

end TwinLog
