import TwinScheme.Primitive.Arithmetic
import TwinScheme.Primitive.Lists
import TwinScheme.Value.Equality

/-!
# The table of primitive procedures

`run` is what each procedure does with its arguments, and `call` is `run`
behind the arity of the table. Every procedure also counts its arguments
itself, since it has to take them apart.
-/

namespace TwinScheme.Primitive

/-- What a primitive procedure does with its arguments. -/
def run : Primitive → List Value → Except Error Outcome
  | add => fun args => (Arithmetic.sum args).map .value
  | sub => binary fun a b => (Arithmetic.combine sub (· - ·) (· - ·) a b).map .value
  | mul => binary fun a b => (Arithmetic.combine mul (· * ·) (· * ·) a b).map .value
  | div => binary fun a b => (Arithmetic.divide a b).map .value
  | abs => unary fun a => (Arithmetic.magnitude a).map .value
  | round => unary fun a => (Arithmetic.round a).map .value
  | max => fun args => (Arithmetic.extreme max (fun x y => x > y) args).map .value
  | min => fun args => (Arithmetic.extreme min (fun x y => x < y) args).map .value
  | greater => binary fun a b =>
    (Arithmetic.compare greater (fun x y => x > y) (fun x y => x > y) a b).map .value
  | less => binary fun a b =>
    (Arithmetic.compare less (fun x y => x < y) (fun x y => x < y) a b).map .value
  | atLeast => binary fun a b =>
    (Arithmetic.compare atLeast (fun x y => x ≥ y) (fun x y => x ≥ y) a b).map .value
  | atMost => binary fun a b =>
    (Arithmetic.compare atMost (fun x y => x ≤ y) (fun x y => x ≤ y) a b).map .value
  | numberEqual => binary fun a b =>
    (Arithmetic.compare numberEqual (fun x y => x == y) (fun x y => x == y) a b).map .value
  | identical => binary fun a b => .ok (.value (.bool (a.identical b)))
  | equal => binary fun a b => .ok (.value (.bool (a.equal b)))
  | not => test fun v => !v.isTruthy
  | car => unary fun a => (Lists.first a).map .value
  | cdr => unary fun a => (Lists.rest a).map .fresh
  | cons => binary fun a b => (Lists.prepend a b).map .fresh
  | append => fun args => (Lists.contents append args).map fun lists => .fresh lists.flatten
  | list => fun args => .ok (.fresh args)
  | length => unary fun a => (Lists.length a).map .value
  | map => Lists.mapCalls
  | isList => test Value.isList
  | isNull => test Value.isNil
  | isNumber => test Value.isNumber
  | isSymbol => test Value.isSymbol
  | isProcedure => test Value.isProcedure

/-- What a call of a primitive procedure comes to: the arity of the table is
checked before anything else. -/
def call (p : Primitive) (args : List Value) : Except Error Outcome := do
  p.arity.check args.length
  p.run args

end TwinScheme.Primitive
