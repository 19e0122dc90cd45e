import TwinScheme.Number.Exact
import TwinScheme.Number.Shortest

/-!
# Numerals: which texts denote numbers

An integer numeral is decimal digits after at most one sign, and denotes an
integer if the value is a word of sixty-four bits. A decimal numeral also
allows a point with a digit on at least one side of it and an exponent, whose
digits may again have a sign; `inf`, `infinity` and `nan` in any mixture of
cases are decimal numerals too. Decimals are rounded to the nearest float, so
every integer numeral outside the range of words denotes a float.
-/

namespace TwinScheme.Number

/-- Whether a text starts with a minus sign, and the text after its sign. -/
def splitSign : List Char → Bool × List Char
  | '+' :: cs => (false, cs)
  | '-' :: cs => (true, cs)
  | cs => (false, cs)

/-- The value of one or more decimal digits. -/
def natural? (cs : List Char) : Option Nat :=
  if !cs.isEmpty && cs.all Char.isDigit then some (Nat.ofDigitChars 10 cs 0) else none

/-- The value of decimal digits after at most one sign. -/
def integer? (cs : List Char) : Option Int :=
  let (negative, digits) := splitSign cs
  (natural? digits).map fun n => if negative then -(n : Int) else n

/-- The word that a text denotes. -/
def int64? (cs : List Char) : Option Int64 :=
  (integer? cs).bind word?

/-- The digits at the start of a text and what follows them. -/
def spanDigits (cs : List Char) : List Char × List Char :=
  (cs.takeWhile Char.isDigit, cs.dropWhile Char.isDigit)

/-- The exponent part: nothing, or the letter `e` and an integer numeral. -/
def exponent? : List Char → Option Int
  | [] => some 0
  | c :: cs => if c = 'e' || c = 'E' then integer? cs else none

/-- The value of an unsigned decimal numeral in digits. -/
def decimal? (cs : List Char) : Option Decimal :=
  let (whole, rest) := spanDigits cs
  let (fraction, rest) :=
    match rest with
    | '.' :: rest => spanDigits rest
    | _ => ([], rest)
  if whole.isEmpty && fraction.isEmpty then none
  else
    (exponent? rest).map fun e =>
      ⟨Nat.ofDigitChars 10 (whole ++ fraction) 0, e - fraction.length⟩

/-- Positive infinity. -/
def infinity : Float :=
  1.0 / 0.0

/-- The float nearest to a decimal. A decimal of more than 310 places before
the point is beyond the largest float, and one whose first digit comes after
330 places is below half of the smallest. -/
def Decimal.toFloat (d : Decimal) : Float :=
  let places := (digitCount d.digits : Int) + d.exponent
  if d.digits = 0 || places < -330 then 0.0
  else if 310 < places then infinity
  else Float.ofScientific d.digits (d.exponent < 0) d.exponent.natAbs

/-- The float that a text without a sign denotes. -/
def magnitude? (cs : List Char) : Option Float :=
  let word := cs.map Char.toLower
  if word = "inf".toList || word = "infinity".toList then some infinity
  else if word = "nan".toList then some (0.0 / 0.0)
  else (decimal? cs).map Decimal.toFloat

/-- The float that a text denotes. -/
def float? (cs : List Char) : Option Float :=
  let (negative, rest) := splitSign cs
  (magnitude? rest).map fun x => if negative then -x else x

end TwinScheme.Number
