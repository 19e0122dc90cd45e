import Mathlib.Data.List.Forall2
import TwinScheme.Value.Supply

/-!
# Taking identities

A computation that takes identities gives a result of one kind wherever the
supply stands, and moves the supply on and never back. `Fresh.Ensures` says
both, and is closed under the ways in which such computations are put together.
-/

namespace TwinScheme

open List (Forall₂)

/-- What holds of a result wherever the supply stands. -/
def Fresh.Ensures {α : Type} (x : Fresh α) (P : α → Prop) : Prop :=
  ∀ next, P (x next).1 ∧ next ≤ (x next).2

namespace Fresh.Ensures

variable {α β γ : Type}

theorem pure {P : α → Prop} {a : α} (h : P a) : (Pure.pure a : Fresh α).Ensures P :=
  fun next => ⟨h, Nat.le_refl next⟩

theorem bind {P : α → Prop} {Q : β → Prop} {x : Fresh α} {f : α → Fresh β}
    (hx : x.Ensures P) (hf : ∀ a, P a → (f a).Ensures Q) : (x >>= f).Ensures Q := by
  intro next
  obtain ⟨hp, hle⟩ := hx next
  obtain ⟨hq, hle'⟩ := hf _ hp (x next).2
  exact ⟨hq, Nat.le_trans hle hle'⟩

theorem imp {P Q : α → Prop} {x : Fresh α} (hx : x.Ensures P) (h : ∀ a, P a → Q a) :
    x.Ensures Q :=
  fun next => ⟨h _ (hx next).1, (hx next).2⟩

theorem and {P Q : α → Prop} {x : Fresh α} (hp : x.Ensures P) (hq : x.Ensures Q) :
    x.Ensures fun a => P a ∧ Q a :=
  fun next => ⟨⟨(hp next).1, (hq next).1⟩, (hp next).2⟩

theorem list {P : Value → Prop} {items : List Value} (h : ∀ id, P (.list id items)) :
    (Fresh.list items).Ensures P :=
  fun next => ⟨h next, Nat.le_succ next⟩

theorem mapM {R : α → γ → Prop} {Q : α → β → Prop} {f : γ → Fresh β} {xs : List α}
    {ys : List γ} (h : Forall₂ R xs ys) (hf : ∀ a c, R a c → (f c).Ensures (Q a)) :
    (ys.mapM f).Ensures (Forall₂ Q xs) := by
  induction h with
  | nil => exact pure .nil
  | cons hac _ ih =>
      rw [List.mapM_cons]
      exact (hf _ _ hac).bind fun b hb => ih.bind fun bs hbs => pure (.cons hb hbs)

end Fresh.Ensures

end TwinScheme
