import TwinScheme.Bindings
import TwinScheme.Evaluator.Eval
import TwinScheme.Textual.Substitution

/-!
# Scoping by substitution

There is one set of bindings, the definitions, with the primitive procedures
behind it; a name that is not defined there means what it means before any
definition. Parameters are never bound: a call replaces them in the body by
expressions for the arguments, one parameter after another, and evaluates what
results. `let` replaces its binders in its body by the expressions themselves.

Assigning to a name that only the primitives give a meaning defines it.
-/

namespace TwinScheme

namespace Textual

/-- The value of a name: a definition, else what the name means without any. -/
def find? (store : Bindings) (name : String) : Option Value :=
  (store.get? name).or (builtin? name)

/-- Calls a procedure by substitution. -/
def enter (f : Value) (args : List Value) : Eval Bindings (Unit × Value) :=
  match f with
  | .lambda _ params body => do
    if params.length ≠ args.length then throw (.arity params.length args.length)
    return ((), ← Eval.supply (instantiate params args body))
  | f => throw (.type (.notApplicable f) none)

end Textual

/-- Parameters are replaced by arguments before a body is evaluated. -/
def Scoping.textual : Scoping Bindings Unit where
  find? store _ := Textual.find? store
  define store _ := store.insert
  overwrite store _ := store.insert
  close _ params body := .ok fun id => .lambda id params body
  expand pairs body := Eval.supply (body.mapM (Textual.replaceEach pairs))
  enter := Textual.enter
  leave _ e := e

end TwinScheme
