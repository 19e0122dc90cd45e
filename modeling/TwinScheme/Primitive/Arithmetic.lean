import TwinScheme.Number.Binary
import TwinScheme.Primitive.Outcome

/-!
# Arithmetic

Two integers are computed exactly, and a result that is not an integer of the
language is an overflow; as soon as one operand is a float the other is rounded
to a float and the operation is the float's. Division gives an integer when the
quotient is one of the language's integers, and a float otherwise.

`max` and `min` compare the operands as floats. The result is one of the
operands, turned into a float if any operand was one. A later operand replaces
an earlier one only if it is strictly better, and nothing is better than a NaN.
-/

namespace TwinScheme.Arithmetic

/-- Two operands of one kind. -/
inductive Operands where
  | ints (x y : Int64)
  | floats (x y : Float)

/-- A number as a float. -/
def toFloat? : Value → Option Float
  | .int n => some (Number.toFloat n)
  | .float x => some x
  | _ => none

/-- Brings two operands to one kind. -/
def operands (p : Primitive) (a b : Value) : Except Error Operands :=
  match a, b with
  | .int x, .int y => .ok (.ints x y)
  | _, _ =>
    match toFloat? a, toFloat? b with
    | some x, some y => .ok (.floats x y)
    | _, _ => .error (.type (.needsNumbers p) none)

/-- An exact result as a value. -/
def exact (p : Primitive) (n : Int) : Except Error Value :=
  match Number.word? n with
  | some k => .ok (.int k)
  | none => .error (.eval (.overflow p) none)

/-- An operation that is exact on integers. -/
def combine (p : Primitive) (onInts : Int → Int → Int) (onFloats : Float → Float → Float)
    (a b : Value) : Except Error Value :=
  match operands p a b with
  | .ok (.ints x y) => exact p (onInts x.toInt y.toInt)
  | .ok (.floats x y) => .ok (.float (onFloats x y))
  | .error e => .error e

/-- A comparison. -/
def compare (p : Primitive) (onInts : Int → Int → Bool) (onFloats : Float → Float → Bool)
    (a b : Value) : Except Error Value :=
  match operands p a b with
  | .ok (.ints x y) => .ok (.bool (onInts x.toInt y.toInt))
  | .ok (.floats x y) => .ok (.bool (onFloats x y))
  | .error e => .error e

/-- The sum of one or more numbers, from the left. -/
def sum : List Value → Except Error Value
  | [] => .error (.arity 1 0)
  | first :: rest =>
    if first.isNumber then rest.foldlM (combine .add (· + ·) (· + ·)) first
    else .error (.type (.needsNumbers .add) none)

/-- The quotient of two integers, if it is an integer of the language. -/
def quotient? (x y : Int64) : Option Int64 :=
  if x.toInt % y.toInt = 0 then Number.word? (x.toInt / y.toInt) else none

/-- Division. -/
def divide (a b : Value) : Except Error Value :=
  match operands .div a b with
  | .ok (.ints x y) =>
    if y = 0 then .error (.eval .divisionByZero none)
    else
      match quotient? x y with
      | some q => .ok (.int q)
      | none => .ok (.float (Number.toFloat x / Number.toFloat y))
  | .ok (.floats x y) => .ok (.float (x / y))
  | .error e => .error e

/-- The absolute value. -/
def magnitude : Value → Except Error Value
  | .int n => exact .abs n.toInt.natAbs
  | .float x => .ok (.float x.abs)
  | _ => .error (.type (.needsNumber .abs) none)

/-- The nearest whole number, ties to even. -/
def round : Value → Except Error Value
  | .int n => .ok (.int n)
  | .float x => .ok (.float (Number.roundEven x))
  | _ => .error (.type (.needsNumber .round) none)

/-- Whether a value is a float. -/
def isFloat : Value → Bool
  | .float _ => true
  | _ => false

/-- A value together with its image among the floats. -/
def imaged? (v : Value) : Option (Value × Float) :=
  (toFloat? v).map fun x => (v, x)

/-- The best of one or more numbers. -/
def extreme (p : Primitive) (better : Float → Float → Bool) (args : List Value) :
    Except Error Value :=
  match args.mapM imaged? with
  | none => .error (.type (.needsNumbers p) none)
  | some [] => .error (.arity 1 0)
  | some (first :: rest) =>
    let best := rest.foldl (fun best next => if better next.2 best.2 then next else best) first
    .ok (if args.any isFloat then .float best.2 else best.1)

end TwinScheme.Arithmetic
