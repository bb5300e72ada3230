/-
  TwinLog.CommandLine — the loader's command line: load a folder into a vault, then
  verify it.

  Two arguments name the input folder and the storage folder. Options may stand anywhere
  before `--`: a long one takes its value after `=` or as the next argument, a short one
  also right behind its letter. Arguments are judged from left to right: the first one
  that is wrong refuses the line, and a request for help or the version before that is
  granted at once. An option may be given once. An argument that starts with a hyphen is
  never a value.

  It follows `Args` and the main function of the loader. What it logs is kept where it is
  an error; the other lines, the times they tell and the filter for them are left out.
-/

import TwinLog.Bulk.Load
import TwinLog.Bulk.Walk
import TwinLog.Text.Messages

namespace TwinLog.CommandLine

structure Options where
  inputFolder : String
  storageFolder : String
  threads : Nat
  attempts : Nat
  indexTimeoutSeconds : Nat
  deriving DecidableEq, Repr

inductive Request where
  | load (o : Options)
  /-- Help or the version. -/
  | information
  | refused
  deriving DecidableEq, Repr

/-- An option that takes a number. -/
inductive Setting where
  | threads
  | attempts
  | indexTimeout
  deriving DecidableEq, Repr

namespace Setting

def limit : Setting → Nat
  | threads => maxUnsigned
  | attempts => 4294967295
  | indexTimeout => maxUnsigned

def ofLong? : String → Option Setting
  | "threads" => some threads
  | "retries" => some attempts
  | "index-timeout-secs" => some indexTimeout
  | _ => none

def ofShort? : Char → Option Setting
  | 't' => some threads
  | 'r' => some attempts
  | _ => none

end Setting

/-! ## Values -/

def digits? (cs : List Char) : Option Nat :=
  if cs.isEmpty || !cs.all Char.isDigit then none
  else some (cs.foldl (fun n c => 10 * n + (c.toNat - '0'.toNat)) 0)

/-- The number given for an option, a plus sign before it if one likes. Attempts are read
    as a signed number, so minus zero is zero there. -/
def number? (s : Setting) : List Char → Option Nat
  | '+' :: r => digits? r
  | '-' :: r => if s = .attempts then (digits? r).filter (· = 0) else none
  | r => digits? r

structure Given where
  folders : List String
  settings : List (Setting × Nat)

def Given.none : Given := ⟨[], []⟩

def Given.set? (g : Given) (s : Setting) (value : List Char) : Option Given :=
  match number? s value with
  | Option.none => Option.none
  | some n =>
    if s.limit < n ∨ (g.settings.lookup s).isSome then Option.none
    else some { g with settings := (s, n) :: g.settings }

def Given.folder? (g : Given) (name : String) : Option Given :=
  if name = "" ∨ 2 ≤ g.folders.length then Option.none else some { g with folders := g.folders ++ [name] }

def Given.request (g : Given) : Request :=
  match g.folders with
  | [inputFolder, storageFolder] => .load {
      inputFolder, storageFolder
      threads := (g.settings.lookup .threads).getD defaultThreads
      attempts := (g.settings.lookup .attempts).getD defaultAttempts
      indexTimeoutSeconds := (g.settings.lookup .indexTimeout).getD 90 }
  | _ => .refused

/-! ## Arguments -/

/-- What an argument is when no value is due. -/
inductive Word where
  | folder (name : String)
  /-- Everything after it is a folder. -/
  | folderMark
  | information
  /-- An option with its value, if that stands in the same argument. -/
  | setting (s : Setting) (value : Option (List Char))
  | unknown
  deriving DecidableEq, Repr

def longWord (name : List Char) : Word :=
  let key := String.ofList (name.takeWhile (· ≠ '='))
  let value := match name.dropWhile (· ≠ '=') with
    | _ :: r => some r
    | [] => none
  match Setting.ofLong? key with
  | some s => .setting s value
  | none => if (key = "help" ∨ key = "version") ∧ value.isNone then .information else .unknown

def shortWord (letter : Char) (rest : List Char) : Word :=
  match Setting.ofShort? letter with
  | some s => .setting s (match rest with
    | [] => none
    | '=' :: r => some r
    | r => some r)
  | none => if letter = 'h' ∨ letter = 'V' then .information else .unknown

def word (arg : String) : Word :=
  match arg.toList with
  | ['-', '-'] => .folderMark
  | '-' :: '-' :: name => longWord name
  | '-' :: letter :: rest => shortWord letter rest
  | _ => .folder arg

def readFolders (g : Given) : List String → Request
  | [] => g.request
  | arg :: rest => match g.folder? arg with
    | some g => readFolders g rest
    | none => .refused

def read (g : Given) : List String → Request
  | [] => g.request
  | arg :: rest => match word arg with
    | .folderMark => readFolders g rest
    | .information => .information
    | .unknown => .refused
    | .folder name => match g.folder? name with
      | some g => read g rest
      | none => .refused
    | .setting s (some value) => match g.set? s value with
      | some g => read g rest
      | none => .refused
    | .setting s none => match rest with
      | [] => .refused
      | value :: rest => match word value with
        | .folder _ => match g.set? s value.toList with
          | some g => read g rest
          | none => .refused
        | _ => .refused

/-! ## Running -/

structure Report where
  exitCode : Nat
  errors : List String
  deriving DecidableEq, Repr

def Report.errorLines (r : Report) : List String := r.errors.map fun e => Text.firstLine (Text.shown e)

def loadAndVerify (o : Options) (v : Volume) : Report × Volume :=
  if !v.isFolder o.inputFolder then (⟨2, [s!"Input directory does not exist: {o.inputFolder}"]⟩, v)
  else match Walk.files v o.inputFolder with
    | .error e => (⟨1, [s!"Failed to enumerate {o.inputFolder}: {e.message}"]⟩, v)
    | .ok paths =>
      let settings : Settings :=
        { workingFolder := o.storageFolder, indexTimeout := .ofSeconds o.indexTimeoutSeconds }
      match Load.load v settings paths o.threads o.attempts with
      | (.error e, v) => (⟨1, [s!"Load failed: {e.message}"]⟩, v)
      | (.ok (), v) => match Load.verify v settings paths o.threads with
        | (.error e, v) => (⟨1, [s!"Verification failed: {e.message}"]⟩, v)
        | (.ok (), v) => (⟨0, []⟩, v)

def run (args : List String) (v : Volume) : Report × Volume :=
  match read .none args with
  | .refused => (⟨2, []⟩, v)
  | .information => (⟨0, []⟩, v)
  | .load o => loadAndVerify o v

end TwinLog.CommandLine
