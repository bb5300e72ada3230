/-
  TwinLog.Volume.Files — opening, making, listing and removing by path.

  Each operation answers as the operating system does: it follows links, except for the
  name it is asked to make or remove, and it reports the first obstacle on the walk. An
  operation that fails leaves the volume as it is, except that `makeFolders` keeps the
  folders it already made.

  It stands for the file system that a `LogFile` is opened in and the loader reads. Left
  out are permissions, times, and failures for other reasons than those in
  `TwinLog.Fault`.
-/

import TwinLog.Volume.Tree

namespace TwinLog

/-- What a path opened for reading gives. Opening a folder succeeds; reading it fails. -/
inductive Opened where
  | file (id : FileId)
  | folder
  deriving DecidableEq, Repr

namespace Volume

/-! ## Looking -/

def folderLength : Nat := 4096

def openToRead (v : Volume) (path : String) : Except IoFault Opened :=
  match v.lookup path with
  | .error e => .error e
  | .ok n => match v.node n with
    | .file id => .ok (.file id)
    | _ => .ok .folder

def lengthOf (v : Volume) : Opened → Nat
  | .file id => (v.disk.image id).length
  | .folder => folderLength

def length (v : Volume) (path : String) : Except IoFault Nat := (v.openToRead path).map v.lengthOf

def isFolder (v : Volume) (path : String) : Bool :=
  match v.openToRead path with
  | .ok .folder => true
  | _ => false

def isFile (v : Volume) (path : String) : Bool :=
  match v.openToRead path with
  | .ok (.file _) => true
  | _ => false

def childNames (v : Volume) (path : String) : Except IoFault (List String) :=
  match v.lookup path with
  | .error e => .error e
  | .ok n => match v.node n with
    | .folder _ entries => .ok (entries.map (·.1))
    | _ => .error (.system .notFolder)

/-- The bytes of a file from `offset` on, at most `n` of them if a limit is given. -/
def readPart (v : Volume) (path : String) (offset : Nat) (n : Option Nat) : Except IoFault (List UInt8) :=
  match v.openToRead path with
  | .error e => .error e
  | .ok .folder => .error (.system .isFolder)
  | .ok (.file id) =>
    let im := v.disk.image id
    .ok (im.readUpTo offset (n.getD im.length))

def below (v : Volume) : Nat → String → Nat → List (String × Option Nat)
  | 0, _, _ => []
  | depth + 1, base, folder =>
    (v.entriesOf folder).flatMap fun (name, n) =>
      let path := Path.join base name
      match v.node n with
      | .folder _ _ => (path, none) :: below v depth path n
      | .file id => [(path, some (v.disk.image id).length)]
      | .link target => [(path, some target.utf8ByteSize)]

def listing (v : Volume) : List (String × Option Nat) :=
  (below v v.nodes.size "" currentNode).mergeSort fun a b => decide (a.1 ≤ b.1)

def maxOffset : Opened → Nat
  | .file _ => 17592186040320
  | .folder => 9223372036854775807

/-! ## Room -/

/-- Answers how many bytes are free where the file of a path lies or is to lie. -/
abbrev Space : Type := String → Except IoFault Nat

/-- The folder whose volume has to hold the file. -/
def folderOf (path : String) : String :=
  match Path.parent path with
  | some "" | none => "."
  | some above => above

/-- Free bytes beside a file. Its folder has to be there; one with a NUL in its path is an
    invalid argument here. -/
def space (v : Volume) : Space := fun path =>
  if (folderOf path).toList.contains '\x00' then .error (.system .invalidArgument)
  else (v.lookup (folderOf path)).map fun _ => v.available

/-! ## Making -/

def openToWrite (v : Volume) (path : String) : Except IoFault (FileId × Volume) :=
  match v.walkFrom .make path (Path.steps path) with
  | .error e => .error e
  | .ok (.found n) => match v.node n with
    | .file id => .ok (id, v)
    | _ => .error (.system .isFolder)
  | .ok (.absent folder name) =>
    let (id, disk) := v.disk.add {}
    .ok (id, { v with disk }.attach folder name (.file id))

def freeName (v : Volume) (path : String) : Except IoFault (Nat × String) :=
  match v.lastName path with
  | .error e => .error e
  | .ok (_, none) => .error (.system .entryExists)
  | .ok (folder, some name) =>
    if maxName < name.utf8ByteSize then .error (.system .nameTooLong)
    else if ((v.entriesOf folder).lookup name).isSome then .error (.system .entryExists)
    else .ok (folder, name)

def makeFolder (v : Volume) (path : String) : Except IoFault Volume :=
  (v.freeName path).map fun (folder, name) => v.attach folder name (.folder folder [])

def makeFoldersWithin : Nat → String → Volume → Except IoFault Unit × Volume
  | 0, _, v => (.error (.system .nameTooLong), v)
  | depth + 1, path, v =>
    if path = "" then (.ok (), v)
    else match v.makeFolder path with
      | .ok v => (.ok (), v)
      | .error (.system .noEntry) =>
        match Path.parent path with
        | none => (.error (.reported .other "failed to create whole tree"), v)
        | some above =>
          match makeFoldersWithin depth above v with
          | (.error e, v) => (.error e, v)
          | (.ok (), v) => match v.makeFolder path with
            | .ok v => (.ok (), v)
            | .error e => if v.isFolder path then (.ok (), v) else (.error e, v)
      | .error e => if v.isFolder path then (.ok (), v) else (.error e, v)

def makeFolders (v : Volume) (path : String) : Except IoFault Unit × Volume :=
  makeFoldersWithin (path.length + 1) path v

def makeParents (v : Volume) (path : String) : Except IoFault Unit × Volume :=
  match Path.parent path with
  | some above => v.makeFolders above
  | none => (.ok (), v)

def putFile (v : Volume) (path : String) (bs : List UInt8) : Except IoFault Unit × Volume :=
  match v.makeParents path with
  | (.error e, v) => (.error e, v)
  | (.ok (), v) => match v.openToWrite path with
    | .error e => (.error e, v)
    | .ok (id, v) => (.ok (), v.updateFile id fun _ => .ofList bs)

def patchFile (v : Volume) (path : String) (offset : Nat) (bs : List UInt8) : Except IoFault Volume :=
  match v.openToRead path with
  | .error e => .error e
  | .ok .folder => .error (.system .isFolder)
  | .ok (.file id) => .ok (v.updateFile id fun im => im.patch offset bs)

def makeLink (v : Volume) (path target : String) : Except IoFault Unit × Volume :=
  match v.makeParents path with
  | (.error e, v) => (.error e, v)
  | (.ok (), v) =>
    if target = "" then (.error (.system .noEntry), v)
    else match v.freeName path with
      | .error e => (.error e, v)
      | .ok (folder, name) =>
        if Path.endsWithSlash path then (.error (.system .noEntry), v)
        else (.ok (), v.attach folder name (.link target))

def removeFile (v : Volume) (path : String) : Except IoFault Volume :=
  match v.lastName path with
  | .error e => .error e
  | .ok (_, none) => .error (.system .isFolder)
  | .ok (folder, some name) =>
    if maxName < name.utf8ByteSize then .error (.system .nameTooLong)
    else match (v.entriesOf folder).lookup name with
      | none => .error (.system .noEntry)
      | some n => match v.node n with
        | .folder _ _ => .error (.system .isFolder)
        | _ => if Path.endsWithSlash path then .error (.system .notFolder) else .ok (v.detach folder name)

end Volume

end TwinLog
