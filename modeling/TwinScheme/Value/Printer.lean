import TwinScheme.Number.Exact
import TwinScheme.Number.Printer
import TwinScheme.Text.Quoted
import TwinScheme.Value.Basic

/-!
# How values are written

There are two texts of a value. `display` is what a program's user sees; the
text of a value made of numbers, symbols and lists reads back as that value.
`describe` names every constructor, so that a number, a boolean and a symbol of
the same spelling look different, and shows what is inside a procedure. Neither
shows an identity or an environment.
-/

namespace TwinScheme.Value

mutual

/-- The text of a value for a user. -/
def display : Value → String
  | int n => Number.integerText n.toInt
  | float x => Number.floatText x
  | symbol name => name
  | bool b => if b then "#t" else "#f"
  | list _ items => "(" ++ " ".intercalate (displayAll items) ++ ")"
  | primitive p => "#<procedure:" ++ p.name ++ ">"
  | closure .. => "#<procedure>"
  | lambda .. => "#<lambda>"
  | unspecified => "#<unspecified>"

/-- The texts of several values. -/
def displayAll : List Value → List String
  | [] => []
  | v :: vs => v.display :: displayAll vs

end

mutual

/-- The text of a value that shows how it is made. -/
def describe : Value → String
  | int n => "Integer(" ++ Number.integerText n.toInt ++ ")"
  | float x => "Float(" ++ Number.floatText x ++ ")"
  | symbol name => "Symbol(" ++ name ++ ")"
  | bool b => "Bool(" ++ (if b then "true" else "false") ++ ")"
  | list _ items => "List(" ++ ", ".intercalate (describeAll items) ++ ")"
  | primitive p => "BuiltinFunction(" ++ p.name ++ ")"
  | closure _ params body _ =>
    "Closure(params=[" ++ ", ".intercalate (params.map Text.quote) ++ "], body=" ++
      body.describe ++ ")"
  | lambda _ params body =>
    "Lambda(params=[" ++ ", ".intercalate (describeAll params) ++ "], body=" ++
      body.describe ++ ")"
  | unspecified => "Unspecified"

/-- The descriptions of several values. -/
def describeAll : List Value → List String
  | [] => []
  | v :: vs => v.describe :: describeAll vs

end

theorem describe_list (id : Identity) (items : List Value) :
    (list id items).describe = "List(" ++ ", ".intercalate (describeAll items) ++ ")" := rfl

theorem describe_closure (id : Identity) (params : List String) (body : Value)
    (env : Environment) :
    (closure id params body env).describe =
      "Closure(params=[" ++ ", ".intercalate (params.map Text.quote) ++ "], body=" ++
        body.describe ++ ")" := rfl

theorem describe_lambda (id : Identity) (params : List Value) (body : Value) :
    (lambda id params body).describe =
      "Lambda(params=[" ++ ", ".intercalate (describeAll params) ++ "], body=" ++
        body.describe ++ ")" := rfl

theorem displayAll_eq_map (vs : List Value) : displayAll vs = vs.map display := by
  induction vs with
  | nil => rfl
  | cons v vs ih => simp [displayAll, ih]

end TwinScheme.Value
