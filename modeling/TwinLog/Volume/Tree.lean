/-
  TwinLog.Volume.Tree — names over files: folders, symbolic links and the walk of a path.

  Nodes are numbered. Node 0 is the root and node 1 the current folder; a folder knows
  its parent, so `..` needs no search. A walk takes the steps of a path one by one. A
  link met on the way is replaced by its target, at most `maxLinks` times in one walk;
  that a walk ends follows from the steps left and the links left alone, so cycles of
  links are an ordinary failure.

  A slash at the end of a path, or of the target of a link the path ends in, asks for a
  folder. A walk that looks for what is there fails if it is something else; a walk that
  means to make a file refuses such a name before looking it up.

  It stands for the file system below the store. Left out are renaming, mounts and
  permissions.
-/

import TwinLog.Disk
import TwinLog.Fault
import TwinLog.Path

namespace TwinLog

inductive Node where
  | folder (parent : Nat) (entries : List (String × Nat))
  | file (id : FileId)
  | link (target : String)
  deriving Repr, Inhabited

structure Volume where
  nodes : Array Node
  disk : Disk
  /-- Free bytes. -/
  available : Nat
  deriving Inhabited

inductive Purpose where
  | look
  /-- A file is to be made if nothing is there. -/
  | make
  deriving DecidableEq, Repr

inductive Spot where
  | found (node : Nat)
  /-- The folder is there, the last name is not. -/
  | absent (folder : Nat) (name : String)
  deriving DecidableEq, Repr

namespace Volume

def rootNode : Nat := 0

def currentNode : Nat := 1

def empty (available : Nat) : Volume where
  nodes := #[.folder rootNode [("work", currentNode)], .folder rootNode []]
  disk := {}
  available := available

def node (v : Volume) (n : Nat) : Node := v.nodes[n]?.getD (.folder rootNode [])

/-- Links followed in one walk. -/
def maxLinks : Nat := 40

def maxName : Nat := 255

/-- Bytes of a whole path, its end mark included. -/
def maxPath : Nat := 4096

/-- Where a stretch of a walk without links ends. -/
inductive Stop where
  | at (spot : Spot)
  | link (target : String) (folder : Nat) (rest : List String)
  | failed (e : SystemError)
  deriving DecidableEq, Repr

def stroll (v : Volume) (purpose : Purpose) (here : Nat) : List String → Stop
  | [] => .at (.found here)
  | name :: rest =>
    match v.node here with
    | .folder parent entries =>
      if name = "" ∨ name = "." then stroll v purpose here rest
      else if name = ".." then stroll v purpose parent rest
      else if purpose = .make ∧ rest = [""] then .failed .isFolder
      else if maxName < name.utf8ByteSize then .failed .nameTooLong
      else match entries.lookup name with
        | none => if rest.isEmpty then .at (.absent here name) else .failed .noEntry
        | some next => match v.node next with
          | .link target => .link target here rest
          | _ => stroll v purpose next rest
    | _ => .failed .notFolder

def walk (v : Volume) (purpose : Purpose) (links here : Nat) (steps : List String) : Except SystemError Spot :=
  match v.stroll purpose here steps with
  | .at spot => .ok spot
  | .failed e => .error e
  | .link target folder rest =>
    match links with
    | 0 => .error .tooManyLinks
    | links + 1 =>
      if target = "" then .error .noEntry
      else walk v purpose links (if Path.isAbsolute target then rootNode else folder) (Path.steps target ++ rest)

def refusePath (path : String) : Option IoFault :=
  if path.toList.contains '\x00' then
    some (.reported .invalidInput "file name contained an unexpected NUL byte")
  else if path = "" then some (.system .noEntry)
  else if maxPath ≤ path.utf8ByteSize then some (.system .nameTooLong)
  else none

def startOf (path : String) : Nat := if Path.isAbsolute path then rootNode else currentNode

def walkFrom (v : Volume) (purpose : Purpose) (path : String) (steps : List String) : Except IoFault Spot :=
  match refusePath path with
  | some e => .error e
  | none => (v.walk purpose maxLinks (startOf path) steps).mapError .system

def nodeAt (v : Volume) (path : String) (steps : List String) : Except IoFault Nat :=
  match v.walkFrom .look path steps with
  | .ok (.found n) => .ok n
  | .ok (.absent _ _) => .error (.system .noEntry)
  | .error e => .error e

def lookup (v : Volume) (path : String) : Except IoFault Nat := v.nodeAt path (Path.steps path)

/-- The folder that holds the last name of a path, and that name. The name is `none`
    where the path ends in `.` or `..` or is a root. -/
def lastName (v : Volume) (path : String) : Except IoFault (Nat × Option String) :=
  let names := Path.names path
  (v.nodeAt path (names.dropLast ++ ["."])).map fun n =>
    (n, names.getLast?.filter fun name => name ≠ "." ∧ name ≠ "..")

/-! ## Changing the tree -/

def entriesOf (v : Volume) (folder : Nat) : List (String × Nat) :=
  match v.node folder with
  | .folder _ entries => entries
  | _ => []

def attach (v : Volume) (folder : Nat) (name : String) (made : Node) : Volume :=
  let added := fun (n : Node) => match n with
    | .folder parent entries => .folder parent (entries ++ [(name, v.nodes.size)])
    | other => other
  { v with nodes := (v.nodes.modify folder added).push made }

/-- Take a name out of a folder; the node stays for whoever holds it. -/
def detach (v : Volume) (folder : Nat) (name : String) : Volume :=
  let removed := fun (n : Node) => match n with
    | .folder parent entries => .folder parent (entries.filter (·.1 ≠ name))
    | other => other
  { v with nodes := v.nodes.modify folder removed }

def updateFile (v : Volume) (f : FileId) (change : Image → Image) : Volume :=
  { v with disk := v.disk.update f change }

end Volume

end TwinLog
