/-
  TwinLog.Vault.Settings — where a vault keeps its two logs and how it uses them.

  Settings are checked in a fixed order before anything is touched: both file names
  must be there and differ as text, the read buffer and the lock wait must be positive.

  It follows `Config`. Its builder is left out: a record update sets a field.
-/

import TwinLog.Fault
import TwinLog.Path

namespace TwinLog

structure Settings where
  workingFolder : String := "./binstore_data"
  indexFileName : String := "index.bin"
  storageFileName : String := "storage.bin"
  /-- How long an operation on the index waits for its turn. -/
  indexTimeout : Duration := .ofSeconds 90
  /-- First capacity of the index file, cursor not counted. -/
  indexCapacity : Nat := 16777216
  /-- First capacity of the content file, cursor not counted. -/
  storageCapacity : Nat := 1073741824
  /-- Bytes streamed at a time. -/
  readBufferSize : Nat := 16384
  deriving DecidableEq, Repr, Inhabited

namespace Settings

def indexPath (s : Settings) : String := Path.join s.workingFolder s.indexFileName

def storagePath (s : Settings) : String := Path.join s.workingFolder s.storageFileName

def check (s : Settings) : Except Fault Unit :=
  if s.indexFileName = "" then .error (.badSettings .emptyIndexName)
  else if s.storageFileName = "" then .error (.badSettings .emptyStorageName)
  else if s.indexFileName = s.storageFileName then .error (.badSettings (.sharedName s.indexFileName))
  else if s.readBufferSize = 0 then .error (.badSettings .zeroBuffer)
  else if s.indexTimeout.nanos = 0 then .error (.badSettings .zeroTimeout)
  else .ok ()

end Settings

def version : String := "0.1.0"

end TwinLog
