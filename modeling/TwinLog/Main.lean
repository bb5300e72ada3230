/-
  TwinLog.Main — the loader as a program.

  The files below both folders are copied into a volume under the paths given, the
  command line is answered there, and the two logs are written back. Everything that is
  decided is decided in `TwinLog.CommandLine`; here bytes are only carried to and fro.

  It is the process around the loader's main function.
-/

import TwinLog.CommandLine

namespace TwinLog.Main

def portion : Nat := 65536

/-- Copy the rest of an open file into file `id`, `offset` bytes of it being done. Zeros
    are not written: the image is zero wherever nothing was. -/
partial def copyIn (h : IO.FS.Handle) (id : FileId) (offset : Nat) (v : Volume) : IO Volume := do
  let bytes ← h.read (USize.ofNat portion)
  if bytes.isEmpty then return v.updateFile id (·.extend offset)
  let blank := bytes.foldl (fun blank b => blank && b == 0) true
  let v := if blank then v else v.updateFile id (·.patch offset bytes.data.toList)
  copyIn h id (offset + bytes.size) v

/-- Copy what is at a path, a folder with all below it, into the volume. -/
def capture : Nat → String → Volume → IO Volume
  | 0, _, v => return v
  | depth + 1, path, v => do
    let found ← try some <$> IO.FS.realPath path catch _ => pure none
    let some place := found | return v
    if ← place.isDir then
      let mut v := (v.makeFolders path).2
      for child in ← place.readDir do
        v ← capture depth (Path.join path child.fileName) v
      return v
    else
      let h ← IO.FS.Handle.mk place .read
      let v := (v.putFile path []).2
      match v.openToRead path with
      | .ok (.file id) => copyIn h id 0 v
      | _ => return v

partial def copyOut (h : IO.FS.Handle) (im : Image) (zeros : ByteArray) (offset : Nat) : IO Unit := do
  if im.length ≤ offset then return
  let n := min portion (im.length - offset)
  if im.bytes.extent ≤ offset && n = portion then h.write zeros
  else h.write ⟨(im.read offset n).toArray⟩
  copyOut h im zeros (offset + n)

def release (v : Volume) (path : String) : IO Unit := do
  match v.openToRead path with
  | .ok (.file id) =>
    let h ← IO.FS.Handle.mk path .write
    copyOut h (v.disk.image id) ⟨Array.replicate portion 0⟩ 0
  | _ => return

def usage : String :=
  "Usage: twinlog [OPTIONS] <INPUT_DIR> <STORAGE_DIR>\n\n" ++
  "  -t, --threads <THREADS>            Number of worker threads [default: 4]\n" ++
  "  -r, --retries <RETRIES>            Attempts per file while the index is busy [default: 3]\n" ++
  "      --index-timeout-secs <SECONDS> Index lock timeout [default: 90]\n" ++
  "  -h, --help                         Print help\n" ++
  "  -V, --version                      Print version"

def maxDepth : Nat := 256

end TwinLog.Main

open TwinLog in
/-- Answer the command line and exit as it says. -/
def main (args : List String) : IO UInt32 := do
  match CommandLine.read .none args with
  | .refused =>
    IO.eprintln Main.usage
    return 2
  | .information =>
    IO.println s!"twinlog {version}\n{Main.usage}"
    return 0
  | .load o =>
    let v ← Main.capture Main.maxDepth o.inputFolder (Volume.empty maxSigned)
    let v ← Main.capture Main.maxDepth o.storageFolder v
    let (report, v) := CommandLine.loadAndVerify o v
    let settings : Settings := { workingFolder := o.storageFolder }
    if v.isFolder o.storageFolder then
      IO.FS.createDirAll o.storageFolder
      Main.release v settings.storagePath
      Main.release v settings.indexPath
    report.errors.forM fun message => IO.eprintln (Text.shown message)
    return UInt32.ofNat report.exitCode
