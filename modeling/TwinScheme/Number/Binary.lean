/-!
# Floating-point numbers as exact values

A finite number of the binary64 format is `m · 2^q` with a sign. Everything
this library decides about a float beyond the arithmetic of the format itself
is decided on that pair in exact integer arithmetic: which decimal digits
identify it, whether it is a whole number, and which whole number is nearest.
-/

namespace TwinScheme.Number

/-- The magnitude `mantissa · 2^exponent` of a finite float. -/
structure Binary where
  mantissa : Nat
  exponent : Int
  /-- At a power of two the neighbour below is half as far away as the one
  above. -/
  narrowBelow : Bool
  deriving DecidableEq, Repr

/-- Whether the sign bit is set, as it is for `-0.0`. -/
def isNegative (x : Float) : Bool :=
  x.toBits >>> 63 == 1

/-- Neither infinite nor a NaN. -/
def isFinite (x : Float) : Bool :=
  !x.isNaN && !x.isInf

/-- The magnitude of a finite float. -/
def Binary.ofFloat (x : Float) : Binary :=
  let biased := ((x.toBits >>> 52) &&& 0x7FF).toNat
  let fraction := (x.toBits &&& 0xFFFFFFFFFFFFF).toNat
  if biased = 0 then ⟨fraction, -1074, false⟩
  else ⟨0x10000000000000 + fraction, (biased : Int) - 1075, fraction == 0 && 1 < biased⟩

/-- The magnitude as a quotient of naturals. -/
def Binary.ratio (b : Binary) : Nat × Nat :=
  (b.mantissa <<< b.exponent.toNat, 1 <<< (-b.exponent).toNat)

/-- The magnitude, if it is a whole number. -/
def Binary.whole? (b : Binary) : Option Nat :=
  let (num, den) := b.ratio
  if num % den = 0 then some (num / den) else none

/-- The whole number nearest to the magnitude, the even one of two equally
near. -/
def Binary.nearest (b : Binary) : Nat :=
  let (num, den) := b.ratio
  let below := num / den
  match compare (2 * (num % den)) den with
  | .lt => below
  | .gt => below + 1
  | .eq => if below % 2 = 0 then below else below + 1

/-- The value of a float that is a whole number. -/
def whole? (x : Float) : Option Int :=
  if isFinite x then
    (Binary.ofFloat x).whole?.map fun n => if isNegative x then -(n : Int) else n
  else none

/-- The nearest whole number as a float, ties to even; the sign of a zero, the
infinities and NaN are kept. -/
def roundEven (x : Float) : Float :=
  if isFinite x then
    let n := Float.ofNat (Binary.ofFloat x).nearest
    if isNegative x then -n else n
  else x

/-- The float nearest to an integer. -/
def toFloat (n : Int64) : Float :=
  Float.ofInt n.toInt

end TwinScheme.Number
