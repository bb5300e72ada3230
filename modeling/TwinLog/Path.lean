/-
  TwinLog.Path — file paths as text.

  A path is the text it was given as; nothing is normalised. `join` appends a name,
  `parent` drops the last name, `names` lists the names it is made of and `steps` what a
  walk of it visits.

  It stands for the paths that `Config` joins and the loader walks.
-/

namespace TwinLog.Path

/-- The parts between slashes, empty ones included; at least one. -/
def splitSlash : List Char → List (List Char)
  | [] => [[]]
  | c :: r =>
    if c = '/' then [] :: splitSlash r
    else match splitSlash r with
      | part :: parts => (c :: part) :: parts
      | [] => [[c]]

def parts (path : String) : List String := (splitSlash path.toList).map String.ofList

def isAbsolute (path : String) : Bool := path.toList.head? == some '/'

def endsWithSlash (path : String) : Bool := path.toList.getLast? == some '/'

def names (path : String) : List String := (parts path).filter (· ≠ "")

/-- The names of a path, and an empty one for a slash at the end: what stands before it has
    to be a folder. -/
def steps (path : String) : List String := if endsWithSlash path then names path ++ [""] else names path

/-- `name` inside `base`. An absolute name replaces the base, an empty base adds no
    slash, a slash at the end of the base is not doubled, and an empty name leaves a
    slash at the end. -/
def join (base name : String) : String :=
  if isAbsolute name then name
  else if base = "" || endsWithSlash base then base ++ name
  else base ++ "/" ++ name

/-- Parts in reverse order without the trailing empty ones and `.`; the first part of
    the path always stays. -/
def trimEnd : List String → List String
  | part :: next :: rest => if part = "" || part = "." then trimEnd (next :: rest) else part :: next :: rest
  | rest => rest

/-- The path without its last name: `none` for a root or an empty path, the empty path
    for a single name. -/
def parent (path : String) : Option String :=
  match trimEnd (parts path).reverse with
  | [] => none
  | [only] => if only = "" then none else some ""
  | _ :: above =>
    match trimEnd above with
    | [""] => some "/"
    | above => some ("/".intercalate above.reverse)

end TwinLog.Path
