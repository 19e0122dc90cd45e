import TwinScheme.Error
import TwinScheme.Value.Supply

/-!
# The memory of an evaluation

Evaluating changes two things: what names are bound to, and which identities
are left. `Eval` is the monad of computations on that memory that may fail. A
failure keeps the memory as it was at the moment of failing: what was defined
before stays defined.
-/

namespace TwinScheme

/-- What evaluation changes. -/
structure Memory (σ : Type) where
  /-- The next identity to hand out. -/
  supply : Identity
  /-- What names are bound to. -/
  bound : σ

/-- Computations on a memory that may fail, and keep the memory when they do. -/
abbrev Eval (σ : Type) := ExceptT Error (StateM (Memory σ))

namespace Eval

variable {σ α : Type}

/-- Runs a computation from a memory. -/
def runFrom (m : Memory σ) (x : Eval σ α) : Except Error α × Memory σ :=
  StateT.run (ExceptT.run x) m

/-- Takes identities from the supply. -/
def supply (x : Fresh α) : Eval σ α :=
  modifyGet fun ⟨next, bound⟩ =>
    let (a, next) := x next
    (a, ⟨next, bound⟩)

/-- Makes a list. -/
def list (items : List Value) : Eval σ Value :=
  supply (Fresh.list items)

/-- A result that is there already, or an error. -/
def ofExcept : Except Error α → Eval σ α
  | .ok a => pure a
  | .error e => throw e

/-- What names are bound to now. -/
def bound : Eval σ σ := do
  return (← get).bound

/-- Changes what names are bound to, and returns something on the way. -/
def update (change : σ → α × σ) : Eval σ α :=
  modifyGet fun ⟨next, bound⟩ =>
    let (a, bound) := change bound
    (a, ⟨next, bound⟩)

/-- Changes what names are bound to. -/
def rebind (change : σ → σ) : Eval σ Unit :=
  update fun bound => ((), change bound)

end Eval

end TwinScheme
