/-!
# The primitive procedures by name

The fixed table of procedures that exist before any program runs. Each has a
name in the language and an arity, and `all` lists them in the order of the
table. The two constants `#t` and `#f` are found in the same place by
programs, although no text denotes a boolean directly.
-/

namespace TwinScheme

/-- How many arguments a procedure takes. -/
inductive Arity where
  | exactly (n : Nat)
  | atLeast (n : Nat)
  | any
  deriving DecidableEq, Repr

/-- Whether a number of arguments fits an arity. -/
def Arity.admits : Arity → Nat → Bool
  | exactly n, count => count == n
  | atLeast n, count => n ≤ count
  | any, _ => true

/-- How an arity is shown. -/
def Arity.describe : Arity → String
  | exactly n => s!"Exact({n})"
  | atLeast n => s!"AtLeast({n})"
  | any => "Any"

/-- The primitive procedures. -/
inductive Primitive where
  | add
  | sub
  | mul
  | div
  | abs
  | round
  | max
  | min
  | greater
  | less
  | atLeast
  | atMost
  | numberEqual
  | identical
  | equal
  | not
  | car
  | cdr
  | cons
  | append
  | list
  | length
  | map
  | isList
  | isNull
  | isNumber
  | isSymbol
  | isProcedure
  deriving DecidableEq, Repr, Inhabited

namespace Primitive

/-- Every primitive procedure, in the order of the table. -/
def all : List Primitive :=
  [add, sub, mul, div, abs, round, max, min, greater, less, atLeast, atMost, numberEqual,
    identical, equal, not, car, cdr, cons, append, list, length, map, isList, isNull, isNumber,
    isSymbol, isProcedure]

/-- The name programs use. -/
def name : Primitive → String
  | add => "+"
  | sub => "-"
  | mul => "*"
  | div => "/"
  | abs => "abs"
  | round => "round"
  | max => "max"
  | min => "min"
  | greater => ">"
  | less => "<"
  | atLeast => ">="
  | atMost => "<="
  | numberEqual => "="
  | identical => "eq?"
  | equal => "equal?"
  | not => "not"
  | car => "car"
  | cdr => "cdr"
  | cons => "cons"
  | append => "append"
  | list => "list"
  | length => "length"
  | map => "map"
  | isList => "list?"
  | isNull => "null?"
  | isNumber => "number?"
  | isSymbol => "symbol?"
  | isProcedure => "procedure?"

/-- The arity in the table. -/
def arity : Primitive → Arity
  | add | max | min => .atLeast 1
  | map => .atLeast 2
  | append | list => .any
  | sub | mul | div | greater | less | atLeast | atMost | numberEqual | identical | equal | cons =>
    .exactly 2
  | abs | round | not | car | cdr | length | isList | isNull | isNumber | isSymbol
  | isProcedure => .exactly 1

/-- Whether the procedure calls procedures that it is given. -/
def callsBack : Primitive → Bool
  | map => true
  | _ => false

/-- How an entry of the table is shown. -/
def describe (p : Primitive) : String :=
  "BuiltinOp \x7b id: \"" ++ p.name ++ "\", op_kind: " ++
    (if p.callsBack then "HigherOrder" else "Function") ++ "(<fn>), arity: " ++
    p.arity.describe ++ " \x7d"

/-- The primitive procedure of a name. -/
def ofName? (name : String) : Option Primitive :=
  all.find? (·.name == name)

end Primitive

end TwinScheme
