import TwinScheme.Evaluator.Eval
import TwinScheme.Lexical.Heap

/-!
# Lexical scoping

A name means what the environment it is read in says. `lambda` captures the
environment in which it is evaluated, and a call evaluates the body in a new
frame in front of the captured ones. `let` is the call of a `lambda`, one level
deeper. An error that leaves a call is given the body as its context.
-/

namespace TwinScheme

namespace Lexical

/-- The names that `let` binds. -/
def binderName : Value × Value → Except Error (String × Value)
  | (.symbol name, expr) => .ok (name, expr)
  | (v, _) => .error (.type (.bindingNotSymbol v) none)

/-- `let` as the call of a `lambda`. -/
def callOfLet (pairs : List (String × Value)) (body : List Value) : Fresh Value := do
  let params ← Fresh.list (pairs.map fun pair => .symbol pair.1)
  let lambda ← Fresh.list [.symbol Keyword.lambda.name, params, ← Form.beginning body]
  Fresh.list (lambda :: pairs.map (·.2))

/-- The closure of a `lambda`. -/
def close (env : Environment) (params : List Value) (body : Value) :
    Except Error (Identity → Value) :=
  (Form.parameterNames params).map fun names id => .closure id names body env

/-- The frame of a call. -/
def frame (params : List String) (args : List Value) : Bindings :=
  Bindings.empty.insertAll (params.zip args)

/-- Calls a closure: its body is evaluated in a new frame. -/
def enter (f : Value) (args : List Value) : Eval Heap (Environment × Value) :=
  match f with
  | .closure _ params body env => do
    if params.length ≠ args.length then throw (.arity params.length args.length)
    let env ← Eval.update fun heap => heap.extend env (frame params args)
    return (env, body)
  | f => throw (.type (.notApplicable f) none)

end Lexical

/-- Names are looked up in chains of frames. -/
def Scoping.lexical : Scoping Heap Environment where
  find? := Heap.find?
  define := Heap.define
  overwrite := Heap.overwrite
  close := Lexical.close
  expand pairs body := do
    let pairs ← Eval.ofExcept (pairs.mapM Lexical.binderName)
    return [← Eval.supply (Lexical.callOfLet pairs body)]
  enter := Lexical.enter
  leave := Error.within

end TwinScheme
