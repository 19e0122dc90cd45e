import TwinScheme.Lexical.Environment
import TwinScheme.Primitive.Basic

/-!
# Values

One type serves as the expressions that are evaluated and as the results that
evaluation produces: a form is a list, and substitution puts results back into
forms. A list value has an identity, a number given to it when it was made, and
so has each procedure that a program creates. Identities are what `eq?`
compares; nothing else looks at them, and in particular two lists with equal
elements are structurally equal whatever their identities.

The two kinds of created procedure belong to the two ways of binding names. A
closure remembers the environment it was made in. A `lambda` value remembers
nothing: a call replaces its parameters in its body. Its parameters need not be
symbols, since an enclosing call may have replaced a parameter by an expression
for an argument.
-/

namespace TwinScheme

/-- A number that tells apart things made at different times. -/
abbrev Identity := Nat

/-- Expressions and results. -/
inductive Value where
  | int (n : Int64)
  | float (x : Float)
  | symbol (name : String)
  | bool (b : Bool)
  | list (id : Identity) (items : List Value)
  | primitive (p : Primitive)
  | closure (id : Identity) (params : List String) (body : Value) (env : Environment)
  | lambda (id : Identity) (params : List Value) (body : Value)
  /-- The result of a form that is evaluated for its effect. -/
  | unspecified
  deriving Inhabited

namespace Value

/-- Whether a value is the empty list. -/
def isNil : Value → Bool
  | list _ items => items.isEmpty
  | _ => false

/-- Only `#f` counts as false. -/
def isTruthy : Value → Bool
  | bool b => b
  | _ => true

/-- Whether a value is an integer or a float. -/
def isNumber : Value → Bool
  | int _ | float _ => true
  | _ => false

/-- Whether a value is a symbol. -/
def isSymbol : Value → Bool
  | symbol _ => true
  | _ => false

/-- Whether a value is a list. -/
def isList : Value → Bool
  | list .. => true
  | _ => false

/-- Whether a value can be called. -/
def isProcedure : Value → Bool
  | primitive _ | closure .. | lambda .. => true
  | _ => false

/-- Whether evaluating a value gives the value itself: all but symbols, which
are looked up, and lists, which are forms. -/
def isSelfEvaluating : Value → Bool
  | symbol _ | list .. => false
  | _ => true

/-- The elements of a list. -/
def items? : Value → Option (List Value)
  | list _ items => some items
  | _ => none

end Value

/-- The constant or primitive procedure that a name stands for before any
definition. -/
def builtin? (name : String) : Option Value :=
  if name = "#t" then some (.bool true)
  else if name = "#f" then some (.bool false)
  else (Primitive.ofName? name).map .primitive

/-- Every name with a meaning before any definition, in the order of the
table. -/
def builtins : List (String × Value) :=
  [("#t", .bool true), ("#f", .bool false)] ++
    Primitive.all.map fun p => (p.name, .primitive p)

end TwinScheme
