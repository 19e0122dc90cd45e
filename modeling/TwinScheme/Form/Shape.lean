import TwinScheme.Error
import TwinScheme.Value.Supply

/-!
# The shapes of special forms

A special form is a keyword and the unevaluated rest of the list it heads.
`Form.parse` checks the shape of the rest and names its parts, before anything
in it is evaluated. Two checks come later, because they belong to parts that
may never be reached or that are read in more than one way: each clause of a
`cond` is looked at when its turn comes, and whether the binders of a `let` are
symbols is up to the way names are bound.
-/

namespace TwinScheme

/-- A special form with its parts named. -/
inductive Form where
  | quote (datum : Value)
  | define (name : String) (expr : Value)
  /-- The shorthand `(define (name param ...) body ...)`. -/
  | defineProcedure (name : String) (params : List String) (body : List Value)
  | assign (name : String) (expr : Value)
  | ite (test yes : Value) (no : Option Value)
  | cond (clauses : List Value)
  | sequence (body : List Value)
  | bind (pairs : List (Value × Value)) (body : List Value)
  | lambda (params : List Value) (body : Value)

namespace Form

/-- The first symbol that stands among `seen` or earlier in a list. -/
def repeated? (seen : List String) : List Value → Option String
  | [] => none
  | .symbol name :: rest => if name ∈ seen then some name else repeated? (name :: seen) rest
  | _ :: rest => repeated? seen rest

/-- Binders in order; the symbols among them are distinct. -/
def distinct (items : List Value) : Except Error (List Value) :=
  match repeated? [] items with
  | some name => .error (.eval (.repeatedParameter name) none)
  | none => .ok items

/-- The binders of a `lambda`. -/
def binders (params : Value) : Except Error (List Value) :=
  match params with
  | .list _ items => distinct items
  | _ => .error (.type .parametersNotList none)

/-- The name of a parameter. -/
def parameterName : Value → Except Error String
  | .symbol name => .ok name
  | v => .error (.type (.parameterNotSymbol v) none)

/-- The names of parameters. -/
def parameterNames (params : List Value) : Except Error (List String) :=
  params.mapM parameterName

/-- The name and the parameters in `(name param ...)`. -/
def signature : List Value → Except Error (String × List String)
  | .symbol name :: params => do return (name, ← parameterNames (← distinct params))
  | _ => .error (.type .badSignature none)

/-- The binder and the expression in `(binder expr)`. -/
def pair : Value → Except Error (Value × Value)
  | .list _ [binder, expr] => .ok (binder, expr)
  | v => .error (.type (.badBinding v) none)

/-- The pairs in `((binder expr) ...)`. -/
def pairs : Value → Except Error (List (Value × Value))
  | .list _ items => items.mapM pair
  | _ => .error (.type .bindingsNotList none)

/-- The test and the body of a clause of a `cond`. -/
def clause : Value → Except Error (Value × List Value)
  | .list _ (test :: body) => .ok (test, body)
  | .list _ [] => .error (.type .emptyClause none)
  | v => .error (.type (.clauseNotList v) none)

/-- Whether a test is the symbol that always holds. -/
def isElse : Value → Bool
  | .symbol name => name == "else"
  | _ => false

/-- Reads the rest of a list that a keyword heads. -/
def parse : Keyword → List Value → Except Error Form
  | .quote, [datum] => .ok (.quote datum)
  | .quote, args => .error (.arity 1 args.length)
  | .define, [.symbol name, expr] => .ok (.define name expr)
  | .define, .list _ items :: b :: body =>
    (signature items).map fun (name, params) => .defineProcedure name params (b :: body)
  | .define, [_, _] => .error (.type (.targetNotSymbol .define) none)
  | .define, args => .error (.arity 2 args.length)
  | .set, [.symbol name, expr] => .ok (.assign name expr)
  | .set, [_, _] => .error (.type (.targetNotSymbol .set) none)
  | .set, args => .error (.arity 2 args.length)
  | .ite, [test, yes] => .ok (.ite test yes none)
  | .ite, [test, yes, no] => .ok (.ite test yes (some no))
  | .ite, args => .error (.arity 3 args.length)
  | .cond, clauses => .ok (.cond clauses)
  | .begin, body => .ok (.sequence body)
  | .letForm, [] => .error (.arity 2 0)
  | .letForm, [_] => .error (.eval .emptyLet none)
  | .letForm, bindings :: body => (pairs bindings).map fun pairs => .bind pairs body
  | .lambda, [params, body] => (binders params).map fun params => .lambda params body
  | .lambda, args => .error (.arity 2 args.length)

/-- The keyword at the head of a list. -/
def keyword? : Value → Option Keyword
  | .symbol name => Keyword.ofName? name
  | _ => none

/-- The expression `(begin expr ...)`. -/
def beginning (body : List Value) : Fresh Value :=
  Fresh.list (.symbol Keyword.begin.name :: body)

/-- A body of one or more expressions as a single one. -/
def single : List Value → Fresh Value
  | [expr] => return expr
  | body => beginning body

end Form

end TwinScheme
