import TwinScheme.Number.Numeral

/-!
# Directives

A directive is the part of a format that stands for an argument: a percent
sign, flags, a width, a precision, length letters, and the letter that says
what kind of argument is meant. Here there never are any arguments, so a number
is zero, a character is the zero character and a text is empty; what remains to
be decided is how these are laid out.

A format is a list of bytes, each handled as the character of its number.
-/

namespace TwinScheme

/-- A directive without its length letters, which change nothing. -/
structure Directive where
  flags : List Char
  width : Nat
  precision : Option Nat
  letter : Char

namespace Directive

/-- The width or precision at the start of a text, and what follows it. An
asterisk takes it from an argument, which is missing and counts as zero. -/
def count : List Char → Nat × List Char
  | '*' :: rest => (0, rest)
  | cs =>
    let (digits, rest) := Number.spanDigits cs
    (Nat.ofDigitChars 10 digits 0, rest)

/-- The precision at the start of a text, if there is one. -/
def precision? : List Char → Option Nat × List Char
  | '.' :: rest =>
    let (n, rest) := count rest
    (some n, rest)
  | cs => (none, cs)

/-- Whether a letter goes together with the flags and the precision. -/
def isValid (d : Directive) : Bool :=
  "aAcdeEfFgGiosuxX".toList.contains d.letter &&
    (!d.flags.any (fun c => c == '\'' || c == 'I') || "dfFgGiu".toList.contains d.letter) &&
    (!d.flags.contains '#' || !"cdisu".toList.contains d.letter) &&
    (!d.flags.contains '0' || !"cs".toList.contains d.letter) &&
    (d.precision.isNone || d.letter != 'c')

/-- Reads a directive after its percent sign, and returns what follows it. The
text may end before the letter. -/
def read (cs : List Char) : Option Directive × List Char :=
  let isFlag := "-+ #0'I".toList.contains
  let flags := cs.takeWhile isFlag
  let (width, rest) := count (cs.dropWhile isFlag)
  let (precision, rest) := precision? rest
  match rest.dropWhile "lLhjtz".toList.contains with
  | [] => (none, [])
  | letter :: rest =>
    let d : Directive := ⟨flags, width, precision, letter⟩
    (if d.isValid then some d else none, rest)

/-- The largest width and precision that can be asked for. -/
def maxCount : Nat :=
  0x7FFFFFFF

/-- Whether the width and the precision can be met. -/
def fits (d : Directive) : Bool :=
  d.width ≤ maxCount && d.precision.getD 0 ≤ maxCount

/-- Whether the letter is that of a number with a point. -/
def isFractional (d : Directive) : Bool :=
  "aAeEfFgG".toList.contains d.letter

/-- The sign of zero. -/
def sign (d : Directive) : List Char :=
  if d.isFractional || d.letter == 'd' || d.letter == 'i' then
    if d.flags.contains '+' then ['+'] else if d.flags.contains ' ' then [' '] else []
  else []

/-- The places of zero after its point, and the point, which stands without
places only if a flag asks for it. -/
def places (d : Directive) (n : Nat) : List Char :=
  if n = 0 && !d.flags.contains '#' then [] else '.' :: List.replicate n '0'

/-- Zero without sign and padding, in the two parts between which zeros may be
put: the mark of its base, and its digits. -/
def zero (d : Directive) : List Char × List Char :=
  match d.letter with
  | 's' => ([], [])
  | 'c' => ([], ['\x00'])
  | 'f' | 'F' => ([], '0' :: d.places (d.precision.getD 6))
  | 'e' => ([], '0' :: d.places (d.precision.getD 6) ++ "e+00".toList)
  | 'E' => ([], '0' :: d.places (d.precision.getD 6) ++ "E+00".toList)
  | 'g' | 'G' =>
    ([], if d.flags.contains '#' then '0' :: d.places (d.precision.getD 6 - 1) else ['0'])
  | 'a' => ("0x".toList, '0' :: d.places (d.precision.getD 0) ++ "p+0".toList)
  | 'A' => ("0X".toList, '0' :: d.places (d.precision.getD 0) ++ "P+0".toList)
  | 'o' =>
    let digits := List.replicate (d.precision.getD 1) '0'
    ([], if d.flags.contains '#' && digits.isEmpty then ['0'] else digits)
  | _ => ([], List.replicate (d.precision.getD 1) '0')

/-- What a directive prints: zero in a field of its width. Zeros fill the field
only if nothing says how many digits there are to be. -/
def text (d : Directive) : List Char :=
  let (mark, digits) := d.zero
  let front := d.sign ++ mark
  let missing := d.width - (front.length + digits.length)
  if d.flags.contains '-' then front ++ digits ++ List.replicate missing ' '
  else if d.flags.contains '0' && (d.isFractional || d.precision.isNone) then
    front ++ List.replicate missing '0' ++ digits
  else List.replicate missing ' ' ++ front ++ digits

end Directive

end TwinScheme
