import TwinScheme.Host.Basic
import TwinScheme.Host.Directive
import TwinScheme.Text.Quoted

/-!
# Formats without arguments

What a format prints when no arguments come with it: its characters, its
escapes, and its directives for arguments that are missing. A format is printed
from left to right and fails at the first escape or directive that makes no
sense. The escape `\c` ends the output there.

Escapes for code points beyond ASCII are printed as themselves, with all their
digits, as a host does that has been told nothing about the encoding.
-/

namespace TwinScheme.Format

/-- The value of an octal digit. -/
def octalDigit? (c : Char) : Option Nat :=
  if '0' ≤ c && c ≤ '7' then some (c.toNat - 48) else none

/-- The value of a hexadecimal digit. -/
def hexDigit? (c : Char) : Option Nat :=
  if c.isDigit then some (c.toNat - 48)
  else if 'a' ≤ c && c ≤ 'f' then some (c.toNat - 87)
  else if 'A' ≤ c && c ≤ 'F' then some (c.toNat - 55)
  else none

/-- Reads at most `most` digits of a base. The result is their value, how many
there were, and what follows them. -/
def number (digit? : Char → Option Nat) (base : Nat) : Nat → List Char → Nat × Nat × List Char
  | most + 1, c :: cs =>
    match digit? c with
    | some d =>
      let (value, count, rest) := number digit? base most cs
      (d * Nat.pow base count + value, count + 1, rest)
    | none => (0, 0, c :: cs)
  | _, cs => (0, 0, cs)

/-- Why a format cannot be printed. -/
inductive Fault where
  | missingDigits
  | badCodePoint (letter : Char) (digits : List Char)
  /-- A directive, as it stands in the format. -/
  | badDirective (text : List Char)
  /-- A directive asks for more than can be printed at once. -/
  | tooWide

/-- The wording of a fault, in bytes as characters. -/
def Fault.message : Fault → List Char
  | missingDigits => "missing hexadecimal number in escape".toList
  | badCodePoint letter digits =>
    "invalid universal character name ".toList ++ '\\' :: letter :: digits
  | badDirective text => text ++ ": invalid conversion specification".toList
  | tooWide => "write error".toList

/-- One piece of a format. -/
inductive Piece where
  | text (cs : List Char)
  /-- The end of all output. -/
  | stop
  | fault (f : Fault)

/-- A hexadecimal number with leading zeros. -/
def padded (digits n : Nat) : List Char :=
  let text := Text.hex n
  List.replicate (digits - text.length) '0' ++ text

/-- The character of a code point, if it is printed as such. -/
def codePoint (letter : Char) (digits n : Nat) : Piece :=
  if n < 0x80 then .text [Char.ofNat n]
  else if 0xD800 ≤ n && n ≤ 0xDFFF then .fault (.badCodePoint letter (padded digits n))
  else
    let (letter, digits) := if n < 0x10000 then ('u', 4) else ('U', 8)
    .text ('\\' :: letter :: (padded digits n).map Char.toUpper)

/-- Reads an escape for a code point after its letter. -/
def readCodePoint (letter : Char) (digits : Nat) (cs : List Char) : Piece × List Char :=
  let (n, count, rest) := number hexDigit? 16 digits cs
  (if count = digits then codePoint letter digits n else .fault .missingDigits, rest)

/-- Reads an escape after its backslash. A backslash before any other character
stands for itself, and so does that character. -/
def readEscape : List Char → Piece × List Char
  | [] => (.text ['\\'], [])
  | c :: rest =>
    match c with
    | 'a' => (.text ['\x07'], rest)
    | 'b' => (.text ['\x08'], rest)
    | 'c' => (.stop, rest)
    | 'e' => (.text ['\x1b'], rest)
    | 'f' => (.text ['\x0c'], rest)
    | 'n' => (.text ['\n'], rest)
    | 'r' => (.text ['\r'], rest)
    | 't' => (.text ['\t'], rest)
    | 'v' => (.text ['\x0b'], rest)
    | '\\' => (.text ['\\'], rest)
    | '"' => (.text ['"'], rest)
    | 'x' =>
      let (n, count, rest) := number hexDigit? 16 2 rest
      (if count = 0 then .fault .missingDigits else .text [Char.ofNat n], rest)
    | 'u' => readCodePoint 'u' 4 rest
    | 'U' => readCodePoint 'U' 8 rest
    | c =>
      let (n, count, after) := number octalDigit? 8 3 (c :: rest)
      if count = 0 then (.text ['\\', c], rest) else (.text [Char.ofNat (n % 256)], after)

/-- Reads what a percent sign introduces: the sign itself, one of the two
directives for quoted texts, which allow nothing before their letter, or any
other directive. -/
def readDirective (cs : List Char) : Piece × List Char :=
  match cs with
  | '%' :: rest => (.text ['%'], rest)
  | 'b' :: rest | 'q' :: rest => (.text [], rest)
  | cs =>
    match Directive.read cs with
    | (some d, rest) => (if d.fits then .text d.text else .fault .tooWide, rest)
    | (none, rest) => (.fault (.badDirective ('%' :: cs.take (cs.length - rest.length))), rest)

/-- Prints a format, given what is printed already. Each piece takes at least
one character, so the length of the format is fuel enough. -/
def printFrom : Nat → List Char → List Char → Except Fault (List Char)
  | fuel + 1, done, c :: cs =>
    let (piece, rest) :=
      if c = '\\' then readEscape cs
      else if c = '%' then readDirective cs
      else (.text [c], cs)
    match piece with
    | .text text => printFrom fuel (done ++ text) rest
    | .stop => .ok done
    | .fault fault => .error fault
  | _, done, _ => .ok done

/-- The characters whose numbers are the bytes of a text. -/
def ofText (text : String) : List Char :=
  (Text.encode text).map fun b => Char.ofNat b.toNat

/-- The bytes that characters are the numbers of. -/
def toBytes (cs : List Char) : List UInt8 :=
  cs.map fun c => UInt8.ofNat c.toNat

/-- Prints a format. -/
def print (format : String) : Except Fault (List UInt8) :=
  let cs := ofText format
  (printFrom cs.length [] cs).map toBytes

end TwinScheme.Format
