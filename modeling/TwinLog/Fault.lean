/-
  TwinLog.Fault — why an operation failed.

  `Fault` has one constructor per cause a caller can tell apart; where a cause has
  several reasons they are a type of their own (`Refusal` for arguments, `Damage` for
  what is read back from disk, `Misconfiguration` for settings). Each of these has a
  constructor `stated` for a reason in words, given by work that is run on behalf of
  somebody else. The wording of every message is in this module.

  It follows `BinStoreError`. Where that carries a text, the reason is a type here and the
  text is made from it.
-/

import TwinLog.KeyLog.Header
import TwinLog.Text.Messages

namespace TwinLog

/-- Bytes of the cursor at the start of every log file. -/
def headSize : Nat := 8

/-! ## Reads, opens and other requests to the file system -/

inductive IoKind where
  | interrupted
  | invalidData
  | invalidInput
  | permissionDenied
  | unexpectedEnd
  | wouldBlock
  | timedOut
  | brokenPipe
  | notFound
  | other
  deriving DecidableEq, Repr, Inhabited

/-- What the operating system answers when a path cannot be used as asked. -/
inductive SystemError where
  | noEntry
  | entryExists
  | notFolder
  | isFolder
  | invalidArgument
  | nameTooLong
  | tooManyLinks
  deriving DecidableEq, Repr, Inhabited

namespace SystemError

def code : SystemError → Nat
  | noEntry => 2
  | entryExists => 17
  | notFolder => 20
  | isFolder => 21
  | invalidArgument => 22
  | nameTooLong => 36
  | tooManyLinks => 40

def text : SystemError → String
  | noEntry => "No such file or directory"
  | entryExists => "File exists"
  | notFolder => "Not a directory"
  | isFolder => "Is a directory"
  | invalidArgument => "Invalid argument"
  | nameTooLong => "File name too long"
  | tooManyLinks => "Too many levels of symbolic links"

end SystemError

inductive IoFault where
  | system (e : SystemError)
  | reported (kind : IoKind) (text : String)
  deriving DecidableEq, Repr, Inhabited

namespace IoFault

def message : IoFault → String
  | system e => s!"{e.text} (os error {e.code})"
  | reported _ text => text

def isInterrupted : IoFault → Bool
  | reported .interrupted _ => true
  | _ => false

end IoFault

/-! ## Reasons -/

inductive Refusal where
  | emptyKey
  | keyTooLong (size : Nat)
  | doesNotFit (value : Nat)
  | capacityOverflow (requested : Nat)
  | cursorTooLarge (cursor : Nat)
  | outOfRange (offset size capacity : Nat) (path : String)
  | zeroBuffer
  | contentTooLong (size cursor : Nat)
  | outsideContent (offset size cursor : Nat)
  | stillWritten (offset size : Nat)
  | stated (text : String)
  deriving DecidableEq, Repr, Inhabited

def Refusal.text : Refusal → String
  | emptyKey => "key is empty"
  | keyTooLong size => s!"key of {size} bytes is too long"
  | doesNotFit value => s!"{value} does not fit in i64"
  | capacityOverflow requested => s!"capacity {requested} overflows with header"
  | cursorTooLarge cursor => s!"cursor {cursor} exceeds i64"
  | outOfRange offset size capacity path => s!"range [{offset}, +{size}) outside capacity {capacity} of {path}"
  | zeroBuffer => "read buffer size must be positive"
  | contentTooLong size cursor => s!"content of {size} bytes does not fit after offset {cursor}"
  | outsideContent offset size cursor => s!"location [{offset}, +{size}) outside written content (cursor {cursor})"
  | stillWritten offset size => s!"location [{offset}, +{size}) is still being written"
  | stated text => text

/-- What is wrong with a record whose header could be read. -/
inductive RecordFlaw where
  | keyElsewhere
  | negativeKeySize
  | negativeSize
  | negativeOffset
  | keyPastCursor
  | keyNotText
  deriving DecidableEq, Repr, Inhabited

def RecordFlaw.text : RecordFlaw → String
  | keyElsewhere => "key offset does not follow its header"
  | negativeKeySize => "negative key size"
  | negativeSize => "negative content size"
  | negativeOffset => "negative content offset"
  | keyPastCursor => "key runs past the cursor"
  | keyNotText => "key is not UTF-8"

inductive Damage where
  | negativeCursor (raw : Int) (path : String)
  | cursorOutside (cursor capacity : Nat) (path : String)
  | truncatedHeader (position bound : Nat)
  | badRecord (position : Nat) (flaw : RecordFlaw) (header : Header)
  | recordedTwice (key : String)
  | lengthDiffers (key : String) (source stored : Nat)
  | checksumDiffers (key : String)
  | stated (text : String)
  deriving DecidableEq

def Damage.text : Damage → String
  | negativeCursor raw path => s!"negative cursor {raw} in {path}"
  | cursorOutside cursor capacity path => s!"cursor {cursor} outside [{headSize}, {capacity}] in {path}"
  | truncatedHeader position bound => s!"truncated record header at {position} (cursor {bound})"
  | badRecord position flaw header => s!"record at {position}: {flaw.text} ({header.listed})"
  | recordedTwice key => s!"key {Text.quoted key} recorded twice"
  | lengthDiffers key source stored => s!"length did not match for {key}: source {source}, stored {stored}"
  | checksumDiffers key => s!"checksums do not match for {key}"
  | stated text => text

inductive Misconfiguration where
  | emptyIndexName
  | emptyStorageName
  | sharedName (name : String)
  | zeroBuffer
  | zeroTimeout
  | stated (text : String)
  deriving DecidableEq, Repr, Inhabited

def Misconfiguration.text : Misconfiguration → String
  | emptyIndexName => "index file name is empty"
  | emptyStorageName => "storage file name is empty"
  | sharedName name => s!"index and storage share the file name {Text.quoted name}"
  | zeroBuffer => "read buffer size must be positive"
  | zeroTimeout => "index timeout must be positive"
  | stated text => text

/-! ## Faults -/

inductive Fault where
  | io (e : IoFault)
  | noSpace (required available : Nat)
  | invalidArgument (why : Refusal)
  | duplicateKey (key : String)
  | keyNotFound (key : String)
  | corruption (what : Damage)
  | timedOut (after : Duration)
  | closed
  | badSettings (why : Misconfiguration)
  deriving DecidableEq

instance : Inhabited Fault := ⟨.closed⟩

namespace Fault

def message : Fault → String
  | io e => s!"IO error: {e.message}"
  | noSpace required available => s!"Not enough disk space: {required} bytes required, {available} available"
  | invalidArgument why => s!"Invalid argument: {why.text}"
  | duplicateKey key => s!"Duplicate key: {key}"
  | keyNotFound key => s!"Key not found: {key}"
  | corruption what => s!"Log corruption detected: {what.text}"
  | timedOut after => s!"Operation timed out after {after.text}"
  | closed => "Storage is closed"
  | badSettings why => s!"Configuration error: {why.text}"

def isTimeout : Fault → Bool
  | timedOut _ => true
  | _ => false

end Fault

end TwinLog
