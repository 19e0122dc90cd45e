import TwinScheme.Number.Binary

/-!
# The shortest decimal that reads back

Among the decimals that a correctly rounding reader takes to a given float,
this module selects the one with the fewest digits, and of those the nearest.

The decimals that read back form an interval around the value, from halfway to
the neighbour below to halfway to the neighbour above; its ends belong to it
exactly when the mantissa is even, because a reader sends a tie to the even
side. On the grid of decimals with `n` digits only the two neighbours of the
value need to be tried: if any point of the grid lies in the interval, one of
them does. So the search is over `n`, and the first grid with a hit wins. Two
hits at exactly the same distance go to the larger one.
-/

namespace TwinScheme.Number

/-- The value `digits · 10^exponent`. -/
structure Decimal where
  digits : Nat
  exponent : Int
  deriving DecidableEq, Repr

/-- How many decimal digits a number has. -/
def digitCount (n : Nat) : Nat :=
  (Nat.toDigits 10 n).length

/-- The value of a digit one followed by some zeros. -/
def powerOfTen (n : Nat) : Nat :=
  Nat.pow 10 n

/-- Compares `a · 10^i` with `n · 2^j`, exactly. -/
def compareScaled (a : Nat) (i : Int) (n : Nat) (j : Int) : Ordering :=
  compare ((a * powerOfTen i.toNat) <<< (-j).toNat) ((n <<< j.toNat) * powerOfTen (-i).toNat)

/-- Whether a decimal lies in the interval that a reader rounds to `b`. -/
def Binary.readsBack (b : Binary) (d : Decimal) : Bool :=
  let low := if b.narrowBelow then 4 * b.mantissa - 1 else 4 * b.mantissa - 2
  let high := 4 * b.mantissa + 2
  let closed := b.mantissa % 2 == 0
  let atLow := compareScaled d.digits d.exponent low (b.exponent - 2)
  let atHigh := compareScaled d.digits d.exponent high (b.exponent - 2)
  (atLow == .gt || (closed && atLow == .eq)) && (atHigh == .lt || (closed && atHigh == .eq))

/-- The least `k` with the magnitude below `10^k`; the magnitude is scaled up
first so that it has a whole part to count the digits of. -/
def Binary.scale (b : Binary) : Int :=
  let (num, den) := b.ratio
  (digitCount (num * powerOfTen 400 / den) : Int) - 400

/-- The best of the two neighbours of the magnitude among the decimals with the
given last place, if one of them reads back. -/
def Binary.candidate? (b : Binary) (place : Int) : Option Decimal :=
  let (num, den) := b.ratio
  let num := num * powerOfTen (-place).toNat
  let den := den * powerOfTen place.toNat
  let below : Decimal := ⟨num / den, place⟩
  let above : Decimal := ⟨num / den + 1, place⟩
  match b.readsBack below, b.readsBack above with
  | true, true => if 2 * (num % den) < den then some below else some above
  | true, false => some below
  | false, true => some above
  | false, false => none

/-- The magnitude itself as a decimal: a half is five tenths. -/
def Binary.toDecimal (b : Binary) : Decimal :=
  let halvings := (-b.exponent).toNat
  ⟨(b.mantissa <<< b.exponent.toNat) * Nat.pow 5 halvings, -(halvings : Int)⟩

/-- The shortest decimal that reads back to a positive magnitude. Seventeen
digits always identify a float, so the exact value, which reads back too, is
never needed. -/
def Binary.shortest (b : Binary) : Decimal :=
  let top := b.scale
  ((List.range' 1 17).findSome? fun (n : Nat) => b.candidate? (top - n)).getD b.toDecimal

/-- The same value with the zeros at the end of its digits moved into the
exponent. -/
def Decimal.strip (d : Decimal) : Decimal :=
  let digits := Nat.toDigits 10 d.digits
  let zeros := (digits.reverse.takeWhile (· == '0')).length
  ⟨d.digits / powerOfTen zeros, d.exponent + zeros⟩

end TwinScheme.Number
