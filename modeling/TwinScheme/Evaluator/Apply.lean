import TwinScheme.Evaluator.Scoping
import TwinScheme.Primitive.Calls

/-!
# Calling procedures

A call of a primitive carries out its outcome; a call of a created procedure
evaluates a body, which is the business of the function `eval` handed in here.
Calling does not nest evaluations by itself, and it comes to an end by itself:
the calls that `map` asks for have smaller arguments than its own, even when
the procedure it calls is `map` again.

`apply_primitive` and `apply_created` say what a call is without the evidence
that the recursion needs.
-/

namespace TwinScheme.Scoping

variable {σ ρ : Type}

/-- Carries out the outcome of a primitive, given how procedures are called. -/
def perform (call : Value → List Value → Eval σ Value) : Outcome → Eval σ Value
  | .value v => pure v
  | .fresh items => Eval.list items
  | .each f calls => do Eval.list (← calls.mapM (call f))

/-- Calls a procedure with evaluated arguments. -/
def apply (S : Scoping σ ρ) (eval : ρ → Value → Eval σ Value) (f : Value) (args : List Value) :
    Eval σ Value :=
  match f with
  | .primitive p =>
    match _h : p.call args with
    | .error e => throw e
    | .ok (.value v) => pure v
    | .ok (.fresh items) => Eval.list items
    | .ok (.each g calls) => do
      Eval.list (← calls.attach.mapM fun ⟨c, _⟩ => S.apply eval g c)
  | f => do
    let (env, body) ← S.enter f args
    tryCatch (eval env body) fun e => throw (S.leave body e)
  termination_by sizeOf args
  decreasing_by exact Primitive.sizeOf_lt_of_call_eq_each _h ‹_›

/-- Calling a primitive is carrying out its outcome. -/
theorem apply_primitive (S : Scoping σ ρ) (eval : ρ → Value → Eval σ Value) (p : Primitive)
    (args : List Value) :
    S.apply eval (.primitive p) args =
      (do perform (S.apply eval) (← Eval.ofExcept (p.call args))) := by
  rw [apply]
  split
  · next e h => simp [h, Eval.ofExcept]
  · next v h => simp [h, Eval.ofExcept, perform]
  · next items h => simp [h, Eval.ofExcept, perform]
  · next g calls h => simp [h, Eval.ofExcept, perform]

/-- Calling any other value is entering it and evaluating its body. -/
theorem apply_created (S : Scoping σ ρ) (eval : ρ → Value → Eval σ Value) {f : Value}
    (args : List Value) (hf : ∀ p, f ≠ .primitive p) :
    S.apply eval f args =
      (do
        let (env, body) ← S.enter f args
        tryCatch (eval env body) fun e => throw (S.leave body e)) := by
  rw [apply]
  exact hf

end TwinScheme.Scoping
