import TwinScheme.Datum.Reader
import TwinScheme.Form.Keyword
import TwinScheme.Value.Printer

/-!
# Errors

What can go wrong, as causes. Reading and evaluating share one error type. Of
the five kinds, two carry a cause of their own, an `EvalFault` for a value that
is not acceptable and a `TypeFault` for one of the wrong kind, and may carry in
addition the expression that was being evaluated when they arose. The wording
of every cause is in the `message` functions and nowhere else.

`Error.within` adds that expression. It does so once: an error that has a
context keeps it, and so does one whose cause already reads as if it had one.
-/

namespace TwinScheme

/-- A failure of evaluation. -/
inductive EvalFault where
  /-- The evaluations in progress are nested deeper than the limit. -/
  | tooDeep (limit : Nat)
  | emptyCombination
  | repeatedParameter (name : String)
  | emptyLet
  | emptyBegin
  /-- The exact result is not an integer of the language. -/
  | overflow (p : Primitive)
  | divisionByZero
  /-- An operation on the first element of a list that has none. -/
  | emptyList (p : Primitive)
  deriving DecidableEq, Repr

/-- What an arithmetic operation is called in the report of an overflow. -/
def Primitive.operation : Primitive → String
  | .add => "addition"
  | .sub => "subtraction"
  | .mul => "multiplication"
  | .div => "division"
  | p => p.name

/-- The wording of a failure of evaluation. -/
def EvalFault.message : EvalFault → String
  | tooDeep limit => s!"Evaluation depth limit exceeded (max: {limit})"
  | emptyCombination => "Cannot evaluate empty list"
  | repeatedParameter name => "Duplicate parameter name: " ++ name
  | emptyLet => "let requires a body"
  | emptyBegin => "begin requires at least one expression"
  | overflow p => "Integer overflow in " ++ p.operation
  | divisionByZero => "Division by zero"
  | emptyList p => p.name ++ " of empty list"

/-- A value of the wrong kind. -/
inductive TypeFault where
  | needsNumbers (p : Primitive)
  | needsNumber (p : Primitive)
  | needsList (p : Primitive)
  | needsLists (p : Primitive)
  /-- The second argument of `cons` is not a list. -/
  | needsListTail
  | needsProcedure (p : Primitive) (got : Value)
  | notApplicable (got : Value)
  /-- A definition or assignment whose target is not a name. -/
  | targetNotSymbol (form : Keyword)
  | badSignature
  | parametersNotList
  | parameterNotSymbol (got : Value)
  | bindingsNotList
  | badBinding (got : Value)
  | bindingNotSymbol (got : Value)
  | emptyClause
  | clauseNotList (got : Value)

/-- The wording of a type fault. -/
def TypeFault.message : TypeFault → String
  | needsNumbers p => p.name ++ " requires numbers"
  | needsNumber p => p.name ++ " requires a number"
  | needsList p => p.name ++ " requires a list"
  | needsLists p => p.name ++ " requires lists"
  | needsListTail => "cons requires a list as second argument"
  | needsProcedure p got => p.name ++ " requires a procedure, got " ++ got.display
  | notApplicable got => "Cannot apply non-function: " ++ got.display
  | targetNotSymbol form => form.name ++ " requires a symbol"
  | badSignature => "define requires a symbol or a (name params...) signature"
  | parametersNotList => "Lambda parameters must be a list"
  | parameterNotSymbol got => "Lambda parameters must be symbols, got " ++ got.display
  | bindingsNotList => "let bindings must be a list"
  | badBinding got => "let binding must be (name expr), got " ++ got.display
  | bindingNotSymbol got => "let binding name must be a symbol, got " ++ got.display
  | emptyClause => "cond clause cannot be empty"
  | clauseNotList got => "cond clause must be a list, got " ++ got.display

/-- Why reading or evaluating failed. -/
inductive Error where
  | read (fault : ReadFault)
  | eval (fault : EvalFault) (context : Option Value)
  | type (fault : TypeFault) (context : Option Value)
  | unbound (name : String)
  | arity (expected got : Nat)

namespace Error

/-- What introduces a context in a message. -/
def contextMark : String :=
  "\n  Context:"

/-- The text of a context. -/
def contextText : Option Value → String
  | none => ""
  | some expr => contextMark ++ " while evaluating " ++ expr.display

/-- The wording of an error. -/
def message : Error → String
  | read fault => "ParseError: " ++ fault.message
  | eval fault context => "EvaluationError: " ++ fault.message ++ contextText context
  | type fault context => "Type error: " ++ fault.message ++ contextText context
  | unbound name => "Unbound variable: " ++ name
  | arity expected got => s!"ArityError: expected {expected} arguments, got {got}"

/-- Whether a wording has a context in it. -/
def hasContext (text : String) : Bool :=
  Text.occurs contextMark.toList text.toList

/-- The error as it leaves the evaluation of an expression. -/
def within (expr : Value) : Error → Error
  | eval fault none => if hasContext fault.message then eval fault none else eval fault (some expr)
  | type fault none => if hasContext fault.message then type fault none else type fault (some expr)
  | error => error

end Error

end TwinScheme
