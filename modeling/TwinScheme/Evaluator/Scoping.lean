import TwinScheme.Evaluator.Memory
import TwinScheme.Form.Shape

/-!
# Scoping disciplines

Everything two evaluators of this language may disagree on: what a name means
at a place in a program, where a definition goes, what a procedure remembers
of the place where it was made, and how a call ties parameters to arguments.
The rest of evaluation is the same for every discipline.

`σ` is what bindings are kept in. `ρ` is a place from which names are read; a
discipline with only one such place takes `Unit`.
-/

namespace TwinScheme

/-- A way of binding names. -/
structure Scoping (σ ρ : Type) where
  /-- What a name means at a place. -/
  find? : σ → ρ → String → Option Value
  /-- Defines a name at a place. -/
  define : σ → ρ → String → Value → σ
  /-- Gives a name that means something at a place another meaning there. -/
  overwrite : σ → ρ → String → Value → σ
  /-- The procedure made at a place from binders and a body, given an identity
  for it. -/
  close : ρ → List Value → Value → Except Error (Identity → Value)
  /-- The expressions that `let` evaluates in sequence, from its pairs of
  binder and expression and its body. -/
  expand : List (Value × Value) → List Value → Eval σ (List Value)
  /-- Calls a created procedure: the place and the expression to evaluate. -/
  enter : Value → List Value → Eval σ (ρ × Value)
  /-- An error as it leaves a call whose body is given. -/
  leave : Value → Error → Error

namespace Scoping

variable {σ ρ : Type} (S : Scoping σ ρ)

/-- Looks a name up. -/
def resolve (env : ρ) (name : String) : Eval σ Value := do
  match S.find? (← Eval.bound) env name with
  | some v => return v
  | none => throw (.unbound name)

/-- Assigns to a name, which has to mean something already. -/
def assign (env : ρ) (name : String) (v : Value) : Eval σ Unit := do
  let _ ← S.resolve env name
  Eval.rebind fun bound => S.overwrite bound env name v

/-- Makes a procedure. -/
def procedure (env : ρ) (params : List Value) (body : Value) : Eval σ Value := do
  let make ← Eval.ofExcept (S.close env params body)
  return make (← Eval.supply Fresh.identity)

end Scoping

end TwinScheme
