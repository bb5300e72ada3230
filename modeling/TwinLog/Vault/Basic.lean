/-
  TwinLog.Vault.Basic — keys and blobs: a content log and an index used as one.

  Both logs are opened from one set of settings, the content log first. An add appends
  the content and then records its key; if either fails, both headers are rolled back
  and the failure is reported. Commit and rollback write the content log's header
  first, so that what the index on disk names is in the content log on disk.

  A key is checked before anything else, then whether the vault is still open. A closed
  vault refuses everything but another close.

  It follows `BinStorage` and its `Logs`. Left out are the lines it logs, `open_path`,
  which is an opening with all settings but the folder left as they are, and the locks:
  `TwinLog.Proofs.Vault.Service` has the calls of several threads in any order.
-/

import TwinLog.ContentLog.Transfer
import TwinLog.KeyLog.Gate
import TwinLog.Vault.Settings

namespace TwinLog

structure Logs where
  content : ContentLog
  index : Gate
  deriving DecidableEq

structure Vault where
  settings : Settings
  /-- Nothing once the vault is closed. -/
  logs : Option Logs
  deriving DecidableEq

namespace Logs

def commit (l : Logs) (d : Disk) : Except Fault Unit × Logs × Disk :=
  match l.content.commit d with
  | .error e => (.error e, l, d)
  | .ok d =>
    let (r, index, d) := l.index.commit d
    (r, { l with index }, d)

/-- Put both headers back to where the session began, the content log's first. -/
def rollback (l : Logs) (d : Disk) : Except Fault Unit × Logs × Disk :=
  match l.content.rollback d with
  | .error e => (.error e, l, d)
  | .ok d =>
    let (r, index, d) := l.index.rollback d
    (r, { l with index }, d)

/-- Append the content and record the key; roll back if either fails. -/
def add (l : Logs) (space : Volume.Space) (d : Disk) (key : String) (src : Source) :
    Except Fault Location × Logs × Disk :=
  let appended := l.content.append space d src
  let l := { l with content := appended.log }
  match appended.result with
  | .error e =>
    let (_, l, d) := l.rollback appended.disk
    (.error e, l, d)
  | .ok location =>
    match l.index.add space appended.disk key location with
    | (.ok (), index, d) => (.ok location, { l with index }, d)
    | (.error e, index, d) =>
      let (_, l, d) := { l with index }.rollback d
      (.error e, l, d)

def close (l : Logs) (d : Disk) : Disk := l.index.index.close (l.content.close d)

end Logs

namespace Vault

def openAt (v : Volume) (settings : Settings) : Except Fault Vault × Volume :=
  match settings.check with
  | .error e => (.error e, v)
  | .ok () => match v.makeFolders settings.workingFolder with
    | (.error e, v) => (.error (.io e), v)
    | (.ok (), v) =>
      match ContentLog.openAt v settings.storagePath settings.storageCapacity settings.readBufferSize with
      | (.error e, v) => (.error e, v)
      | (.ok content, v) => match KeyLog.openAt v settings.indexPath settings.indexCapacity with
        | (.error e, v) => (.error e, v)
        | (.ok index, v) => (.ok ⟨settings, some ⟨content, Gate.ofIndex index settings.indexTimeout⟩⟩, v)

def isClosed (vault : Vault) : Bool := vault.logs.isNone

def withLogs {α : Type} (vault : Vault) (d : Disk) (f : Logs → Disk → Except Fault α × Logs × Disk) :
    Except Fault α × Vault × Disk :=
  match vault.logs with
  | none => (.error .closed, vault, d)
  | some l =>
    let (r, l, d) := f l d
    (r, { vault with logs := some l }, d)

def withKey {α : Type} (vault : Vault) (d : Disk) (key : String)
    (f : Logs → Disk → Except Fault α × Logs × Disk) : Except Fault α × Vault × Disk :=
  if key = "" then (.error (.invalidArgument .emptyKey), vault, d) else vault.withLogs d f

def add (vault : Vault) (space : Volume.Space) (d : Disk) (key : String) (src : Source) :
    Except Fault Location × Vault × Disk :=
  vault.withKey d key fun l d => l.add space d key src

def locate (vault : Vault) (d : Disk) (key : String) : Except Fault Location × Vault × Disk :=
  vault.withKey d key fun l d =>
    let (r, index, d) := l.index.get d key
    (r, { l with index }, d)

def get (vault : Vault) (d : Disk) (key : String) : Except Fault (List UInt8) × Vault × Disk :=
  vault.withKey d key fun l d =>
    let (r, index, d) := l.index.get d key
    (r.bind (l.content.get d), { l with index }, d)

def contains (vault : Vault) (d : Disk) (key : String) : Except Fault Bool × Vault × Disk :=
  vault.withKey d key fun l d =>
    let (r, index, d) := l.index.contains d key
    (r, { l with index }, d)

def commit (vault : Vault) (d : Disk) : Except Fault Unit × Vault × Disk := vault.withLogs d Logs.commit

def rollback (vault : Vault) (d : Disk) : Except Fault Unit × Vault × Disk := vault.withLogs d Logs.rollback

/-- Let go of both logs. Nothing is committed; closing again does nothing. -/
def close (vault : Vault) (d : Disk) : Vault × Disk :=
  match vault.logs with
  | none => (vault, d)
  | some l => ({ vault with logs := none }, l.close d)

end Vault

end TwinLog
