/-
  TwinLog.Bulk.Walk — the files below a folder.

  The files of a folder come first, in order of their names, then what is below its
  folders, the last name first. Links are followed; what is neither a file nor a folder
  once followed, such as a broken link, is left out. A cycle of links ends where a path
  holds more links than a walk follows, which also bounds how deep folders can nest.

  `files` does all that is below a folder before it goes on. `Ends` is the same walk as a
  loop: it keeps a stack of folders that are still to be looked into.

  It follows `collect_files`. Left out are failures that a listing meets half way: a
  folder is listed as a whole or not at all.
-/

import TwinLog.Volume.Files

namespace TwinLog.Walk

def children (v : Volume) (folder : String) : Except IoFault (List String) :=
  (v.childNames folder).map fun names => (names.mergeSort fun a b => decide (a ≤ b)).map (Path.join folder)

def filesWithin (v : Volume) : Nat → String → Except IoFault (List String)
  | 0, _ => .error (.system .tooManyLinks)
  | depth + 1, folder =>
    match children v folder with
    | .error e => .error e
    | .ok paths =>
      let files := paths.filter v.isFile
      let folders := (paths.filter v.isFolder).reverse
      (folders.mapM (filesWithin v depth)).map fun below => files ++ below.flatten

/-- No path goes through more folders than this. -/
def maxDepth (v : Volume) : Nat := (Volume.maxLinks + 1) * (v.nodes.size + 1)

def files (v : Volume) (root : String) : Except IoFault (List String) := filesWithin v (maxDepth v) root

/-! ## The walk as a loop -/

/-- The folders that are still to be looked into, the next one first, and the files found so far. -/
structure Trail where
  pending : List String
  found : List String

def Trail.meet (v : Volume) (t : Trail) (path : String) : Trail :=
  if v.isFolder path then { t with pending := path :: t.pending }
  else if v.isFile path then { t with found := t.found ++ [path] }
  else t

/-- How a walk ends that looks into one folder after the other. -/
inductive Ends (v : Volume) : Trail → Except IoFault (List String) → Prop
  | done (found : List String) : Ends v ⟨[], found⟩ (.ok found)
  | fails {folder : String} {pending found : List String} {e : IoFault} (refused : children v folder = .error e) :
      Ends v ⟨folder :: pending, found⟩ (.error e)
  | looks {folder : String} {pending found paths : List String} {r : Except IoFault (List String)}
      (listed : children v folder = .ok paths) (go : Ends v (paths.foldl (Trail.meet v) ⟨pending, found⟩) r) :
      Ends v ⟨folder :: pending, found⟩ r

end TwinLog.Walk
