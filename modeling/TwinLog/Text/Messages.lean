/-
  TwinLog.Text.Messages — what the texts of messages are made of.

  Bytes and numbers are in lower-case hexadecimal. A `Duration` is a number of nanoseconds,
  shown in the largest of the units s, ms, µs and ns of which it holds at least one, with the
  exact fraction and no trailing zeros.

  A name is `quoted` between double quotes. The quote and the backslash are escaped, so are
  NUL, tab, line feed and carriage return by a letter, and every other character that is not
  printable by its code point in braces. The apostrophe stands for itself.

  A terminal takes some characters for orders: it rings, moves back, clears the screen or
  changes its colours. `shown` puts the codes of these in their place. Tabs and line ends
  do no harm and stay, so a message may take several lines; `firstLine` is the one that
  its heading stands on.

  These texts are those of `BinStoreError` and `Checksum` and of the lines that the loader
  logs.
-/

import TwinLog.Text.Printable

namespace TwinLog

/-! ## Hexadecimal -/

namespace Text

def hexDigit (n : Nat) : Char := "0123456789abcdef".toList.getD n '0'

def hex (bs : List UInt8) : String :=
  String.ofList (bs.flatMap fun b => [hexDigit (b.toNat / 16), hexDigit (b.toNat % 16)])

def hexNumber (n : Nat) : String := String.ofList (Nat.toDigits 16 n)

end Text

/-! ## Spans of time -/

structure Duration where
  nanos : Nat
  deriving DecidableEq, Repr, Inhabited

namespace Duration

def ofSeconds (s : Nat) : Duration := ⟨s * 1000000000⟩

/-- The digits after the point of `rest / 10 ^ width`, without trailing zeros. -/
def fraction (rest width : Nat) : List Char :=
  let digits := Nat.toDigits 10 rest
  let padded := List.replicate (width - digits.length) '0' ++ digits
  (padded.reverse.dropWhile (· == '0')).reverse

/-- `nanos` in units of `10 ^ width` nanoseconds. -/
def inUnit (nanos width : Nat) (unit : String) : String :=
  let one := Nat.pow 10 width
  let frac := if nanos % one = 0 then [] else fraction (nanos % one) width
  toString (nanos / one) ++ (if frac.isEmpty then "" else "." ++ String.ofList frac) ++ unit

def text (d : Duration) : String :=
  if 1000000000 ≤ d.nanos then inUnit d.nanos 9 "s"
  else if 1000000 ≤ d.nanos then inUnit d.nanos 6 "ms"
  else if 1000 ≤ d.nanos then inUnit d.nanos 3 "µs"
  else inUnit d.nanos 0 "ns"

end Duration

/-! ## Names and terminals -/

namespace Text

def escape (c : Char) : String :=
  if c = '\x00' then "\\0"
  else if c = '\t' then "\\t"
  else if c = '\r' then "\\r"
  else if c = '\n' then "\\n"
  else if c = '"' then "\\\""
  else if c = '\\' then "\\\\"
  else if isPrintable c then c.toString
  else "\\u\x7b" ++ hexNumber c.toNat ++ "\x7d"

def quoted (s : String) : String := "\"" ++ String.join (s.toList.map escape) ++ "\""

/-- Bell, backspace, form feed, escape and delete. -/
def orders : List Char := ['\x07', '\x08', '\x0c', '\x1b', '\x7f']

/-- An order by its two digits, a character of the second control block by its number in
    braces, and every other character as it is. -/
def shownChar (c : Char) : String :=
  if orders.contains c then "\\x" ++ hex [UInt8.ofNat c.toNat]
  else if 0x80 ≤ c.toNat ∧ c.toNat ≤ 0x9f then "\\u\x7b" ++ hexNumber c.toNat ++ "\x7d"
  else c.toString

def shown (s : String) : String := String.join (s.toList.map shownChar)

/-- What stands before the first line feed. A carriage return right before it belongs to the
    line end. -/
def firstLine (s : String) : String :=
  let line := s.toList.takeWhile (· ≠ '\n')
  String.ofList (if line.getLast? = some '\r' then line.dropLast else line)

end Text

end TwinLog
