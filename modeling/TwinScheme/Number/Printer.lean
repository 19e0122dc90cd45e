import TwinScheme.Number.Shortest

/-!
# How numbers are written

A float is written with the fewest digits that read back to it, and always so
that it reads back as a float: with a point or with an exponent. Zero and the
magnitudes from `10^-4` up to but not including `10^16` are written
positionally with at least one digit on each side of the point; the others have
one digit before the point, no point if no digit follows it, and an exponent
without a plus sign or padding. Zero keeps its sign.
-/

namespace TwinScheme.Number

/-- The bounds of positional writing: how far the point may lie to the left and
to the right of the first digit. -/
structure Layout where
  plainFrom : Int
  plainUpTo : Int

/-- Positional writing from `10^-4` below `10^16`. -/
def floatLayout : Layout where
  plainFrom := -3
  plainUpTo := 16

/-- Lays out digits whose first one stands right after the point of
`0.d₁d₂… · 10^point`. -/
def Layout.lay (style : Layout) (digits : List Char) (point : Int) : List Char :=
  if style.plainFrom ≤ point && point ≤ style.plainUpTo then
    if point ≤ 0 then
      ['0', '.'] ++ List.replicate (-point).toNat '0' ++ digits
    else if digits.length ≤ point.toNat then
      digits ++ List.replicate (point.toNat - digits.length) '0' ++ ['.', '0']
    else
      digits.take point.toNat ++ ['.'] ++ digits.drop point.toNat
  else
    let exponent := point - 1
    let mark := 'e' :: ((if exponent < 0 then ['-'] else []) ++ Nat.toDigits 10 exponent.natAbs)
    match digits with
    | [] => mark
    | [d] => d :: mark
    | d :: ds => d :: '.' :: ds ++ mark

/-- The text of a magnitude. -/
def Binary.text (b : Binary) : List Char :=
  if b.mantissa = 0 then ['0', '.', '0']
  else
    let d := b.shortest.strip
    let digits := Nat.toDigits 10 d.digits
    floatLayout.lay digits (d.exponent + digits.length)

/-- The text of a float. -/
def floatText (x : Float) : String :=
  if x.isNaN then "NaN"
  else if x.isInf then (if isNegative x then "-inf" else "inf")
  else
    let text := (Binary.ofFloat x).text
    String.ofList (if isNegative x then '-' :: text else text)

end TwinScheme.Number
