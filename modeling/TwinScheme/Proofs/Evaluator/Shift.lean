import TwinScheme.Bindings
import TwinScheme.Proofs.Evaluator.Indifference
import TwinScheme.Proofs.Lexical.Likeness

/-!
# The same things, made later

What a session makes after a reset stands beside what was made before: the
identities it takes and the frames it adds have higher numbers than they would
have in a new session, all of them by the same amount. `Value.shift` moves a
value by such an amount.

Numbers are the only difference, and nothing that is written or asked about a
value depends on them, except whether two things are the same thing; and the
numbers of one value and another are equal before a shift if they are after it.
So values correspond to their shifts, and every text of a value is the text of its
shift.
-/

namespace TwinScheme

open List (Forall₂)

/-- How many identities were taken and how many frames were added before. -/
structure Shift where
  identities : Nat
  frames : Nat

variable {δ : Shift} {α β γ : Type}

/-- The chain of the frames that come that much later. -/
def Environment.shift (δ : Shift) (env : Environment) : Environment :=
  ⟨env.innermost + δ.frames, env.outer.map (· + δ.frames)⟩

theorem Environment.frames_shift (δ : Shift) (env : Environment) :
    (env.shift δ).frames = env.frames.map (· + δ.frames) := rfl

mutual

/-- The value that is made that much later. -/
def Value.shift (δ : Shift) : Value → Value
  | .list id items => .list (id + δ.identities) (Value.shiftAll δ items)
  | .closure id params body env =>
    .closure (id + δ.identities) params (body.shift δ) (env.shift δ)
  | .lambda id params body =>
    .lambda (id + δ.identities) (Value.shiftAll δ params) (body.shift δ)
  | v => v

def Value.shiftAll (δ : Shift) : List Value → List Value
  | [] => []
  | v :: vs => v.shift δ :: Value.shiftAll δ vs

end

theorem Value.shiftAll_eq_map (δ : Shift) (vs : List Value) :
    Value.shiftAll δ vs = vs.map (·.shift δ) := by
  induction vs with
  | nil => rfl
  | cons v vs ih => rw [Value.shiftAll, ih, List.map_cons]

namespace Value

@[simp] theorem shift_list (id : Identity) (items : List Value) :
    (list id items).shift δ = .list (id + δ.identities) (items.map (·.shift δ)) := by
  rw [shift, shiftAll_eq_map]

@[simp] theorem shift_symbol (name : String) : (symbol name).shift δ = .symbol name := by
  rw [shift] <;> nofun

@[simp] theorem shift_closure (id : Identity) (params : List String) (body : Value)
    (env : Environment) : (closure id params body env).shift δ =
      .closure (id + δ.identities) params (body.shift δ) (env.shift δ) := by
  rw [shift]

@[simp] theorem shift_lambda (id : Identity) (params : List Value) (body : Value) :
    (lambda id params body).shift δ =
      .lambda (id + δ.identities) (params.map (·.shift δ)) (body.shift δ) := by
  rw [shift, shiftAll_eq_map]

/-! ## Texts -/

mutual

/-- Identities and frames are never shown. -/
theorem like_shift (δ : Shift) : ∀ v : Value, v.Like id (v.shift δ)
  | .int n => .int n
  | .float x => .float x
  | .symbol name => .symbol name
  | .bool b => .bool b
  | .primitive p => .primitive p
  | .unspecified => .unspecified
  | .list id items => by
      rw [shift]
      exact .list (like_shiftAll δ items)
  | .closure .. => by
      rw [shift]
      exact .closure
  | .lambda .. => by
      rw [shift]
      exact .lambda

theorem like_shiftAll (δ : Shift) : ∀ vs : List Value, Forall₂ (Value.Like id) vs (shiftAll δ vs)
  | [] => .nil
  | v :: vs => .cons (like_shift δ v) (like_shiftAll δ vs)

end

theorem display_shift (δ : Shift) (v : Value) : (v.shift δ).display = v.display :=
  (like_shift δ v).display_eq.symm

mutual

theorem describe_shift (δ : Shift) : ∀ v : Value, (v.shift δ).describe = v.describe
  | .int _ | .float _ | .symbol _ | .bool _ | .primitive _ | .unspecified => by
      rw [shift] <;> nofun
  | .list id items => by
      rw [shift, describe_list, describe_list, describeAll_shift δ items]
  | .closure id params body env => by
      rw [shift, describe_closure, describe_closure, describe_shift δ body]
  | .lambda id params body => by
      rw [shift, describe_lambda, describe_lambda, describe_shift δ body,
        describeAll_shift δ params]

theorem describeAll_shift (δ : Shift) :
    ∀ vs : List Value, describeAll (shiftAll δ vs) = describeAll vs
  | [] => rfl
  | v :: vs => by
      rw [shiftAll, describeAll, describeAll, describe_shift δ v, describeAll_shift δ vs]

end

end Value

/-! ## What tells values apart -/

def Value.Tag.shift (δ : Shift) : Value.Tag → Value.Tag
  | list id => .list (id + δ.identities)
  | closure id => .closure (id + δ.identities)
  | lambda id => .lambda (id + δ.identities)

theorem Value.Tag.shift_injective (δ : Shift) : Function.Injective (Value.Tag.shift δ) := by
  intro t u h
  cases t <;> cases u <;> simp_all [Value.Tag.shift]

theorem Value.tag?_shift (δ : Shift) (v : Value) :
    (v.shift δ).tag? = v.tag?.map (Value.Tag.shift δ) := by
  cases v with
  | list => rw [shift]; rfl
  | closure => rw [shift]; rfl
  | lambda => rw [shift]; rfl
  | _ => rfl

theorem Value.isCreated_shift (δ : Shift) (v : Value) : (v.shift δ).isCreated = v.isCreated := by
  cases v with
  | list => rw [shift]; rfl
  | closure => rw [shift]; rfl
  | lambda => rw [shift]; rfl
  | _ => rfl

/-- A value belongs to its shift. -/
def Shift.correspondence (δ : Shift) : Correspondence where
  tags t u := u = t.shift δ
  unique := by
    rintro t t' _ _ rfl rfl
    exact (Value.Tag.shift_injective δ).eq_iff.symm
  calls f g := f.isCreated = true ∧ g = f.shift δ
  created := by
    rintro f _ ⟨hf, rfl⟩
    exact ⟨hf, (Value.isCreated_shift δ f).trans hf⟩
  tagged := by
    rintro f _ ⟨hf, rfl⟩
    rw [Value.tag?_shift]
    cases f with
    | closure id | lambda id => exact ⟨_, _, rfl, rfl, rfl⟩
    | _ => cases hf

namespace Matches

mutual

theorem shift (δ : Shift) : ∀ v : Value, Matches δ.correspondence v (v.shift δ)
  | .int n => .int n
  | .float x => .float x
  | .symbol name => .symbol name
  | .bool b => .bool b
  | .primitive p => .primitive p
  | .unspecified => .unspecified
  | .list id items => by
      rw [Value.shift]
      exact .list rfl (shiftAll δ items)
  | .closure .. => .created ⟨rfl, rfl⟩
  | .lambda .. => .created ⟨rfl, rfl⟩

theorem shiftAll (δ : Shift) :
    ∀ vs : List Value, Forall₂ (Matches δ.correspondence) vs (Value.shiftAll δ vs)
  | [] => .nil
  | v :: vs => .cons (shift δ v) (shiftAll δ vs)

end

mutual

theorem eq_shift : ∀ {a b : Value}, Matches δ.correspondence a b → b = a.shift δ
  | _, _, .int _ | _, _, .float _ | _, _, .symbol _ | _, _, .bool _ | _, _, .primitive _
  | _, _, .unspecified => rfl
  | .list _ items, .list _ items', .list hi hitems => by
      cases (show Value.Tag.list _ = (Value.Tag.list _).shift δ from hi)
      rw [Value.shift, eq_shiftAll hitems]
  | _, _, .created h => h.2

theorem eq_shiftAll : ∀ {as bs : List Value}, Forall₂ (Matches δ.correspondence) as bs →
    bs = Value.shiftAll δ as
  | [], [], .nil => rfl
  | _ :: _, _ :: _, .cons hab habs => by rw [Value.shiftAll, eq_shift hab, eq_shiftAll habs]

end

theorem shift_iff {a b : Value} : Matches δ.correspondence a b ↔ b = a.shift δ := by
  constructor
  · exact eq_shift
  · rintro rfl
    exact shift δ a

end Matches

theorem Value.equal_shift (a b : Value) : (a.shift δ).equal (b.shift δ) = a.equal b :=
  ((Matches.shift δ a).equal_eq (Matches.shift δ b)).symm

theorem Value.isTruthy_shift (v : Value) : (v.shift δ).isTruthy = v.isTruthy :=
  (Matches.shift δ v).isTruthy_eq.symm

theorem Value.isList_shift (v : Value) : (v.shift δ).isList = v.isList :=
  (Matches.shift δ v).isList_eq.symm

theorem Value.isSelfEvaluating_shift (v : Value) :
    (v.shift δ).isSelfEvaluating = v.isSelfEvaluating :=
  (Matches.shift δ v).isSelfEvaluating_eq.symm

/-! ## Bindings -/

/-- The same names, bound to what is made that much later. -/
def Bindings.shift (δ : Shift) (b : Bindings) : Bindings where
  entries := b.entries.map fun entry => (entry.1, entry.2.shift δ)
  ascending := List.pairwise_map.2 b.ascending

theorem Bindings.get?_shift (b : Bindings) (x : String) :
    (b.shift δ).get? x = (b.get? x).map (·.shift δ) := by
  have hlookup : ∀ entries : List (String × Value),
      lookup x (entries.map fun entry => (entry.1, entry.2.shift δ)) =
        (lookup x entries).map (·.shift δ) := by
    intro entries
    induction entries with
    | nil => rfl
    | cons entry rest ih =>
        rw [List.map_cons, lookup, lookup, ih]
        split <;> rfl
  exact hlookup b.entries

theorem Bindings.contains_shift (b : Bindings) (x : String) :
    (b.shift δ).contains x = b.contains x := by
  rw [contains, get?_shift, Option.isSome_map, contains]

theorem Bindings.shift_insert (b : Bindings) (x : String) (v : Value) :
    (b.insert x v).shift δ = (b.shift δ).insert x (v.shift δ) := by
  ext y : 1
  rw [get?_shift, get?_insert, get?_insert, get?_shift]
  split <;> rfl

theorem Bindings.shift_insertAll (b : Bindings) (pairs : List (String × Value)) :
    (b.insertAll pairs).shift δ =
      (b.shift δ).insertAll (pairs.map fun pair => (pair.1, pair.2.shift δ)) := by
  induction pairs generalizing b with
  | nil => rfl
  | cons pair pairs ih =>
      have hstep : ∀ (b : Bindings) (pair : String × Value) pairs,
          b.insertAll (pair :: pairs) = (b.insert pair.1 pair.2).insertAll pairs :=
        fun _ _ _ => rfl
      rw [List.map_cons, hstep, hstep, ih, shift_insert]

theorem Bindings.shift_empty : (∅ : Bindings).shift δ = ∅ := rfl

/-- What a name means before any definition is not made at all. -/
theorem builtin?_shift (x : String) : (builtin? x).map (·.shift δ) = builtin? x := by
  unfold builtin?
  split
  · rfl
  · split
    · rfl
    · rw [Option.map_map]
      rfl

/-! ## Identities taken later -/

/-- Of two computations the second does the same as the first with identities
taken later, and its result is the image of that of the first. -/
def Fresh.Shifts (δ : Shift) (f : α → β) (x : Fresh α) (y : Fresh β) : Prop :=
  ∀ next, y (next + δ.identities) = (f (x next).1, (x next).2 + δ.identities)

namespace Fresh.Shifts

theorem pure {f : α → β} {a : α} {b : β} (h : b = f a) :
    Fresh.Shifts δ f (Pure.pure a) (Pure.pure b) := by
  rintro next
  rw [h]
  rfl

theorem bind {α' β' : Type} {f : α → β} {g : α' → β'} {x : Fresh α} {y : Fresh β}
    {x' : α → Fresh α'} {y' : β → Fresh β'} (h : Fresh.Shifts δ f x y)
    (h' : ∀ a, Fresh.Shifts δ g (x' a) (y' (f a))) :
    Fresh.Shifts δ g (x >>= x') (y >>= y') := by
  intro next
  show y' (y (next + δ.identities)).1 (y (next + δ.identities)).2 = _
  rw [h next]
  exact h' (x next).1 (x next).2

theorem list (items : List Value) :
    Fresh.Shifts δ (·.shift δ) (Fresh.list items) (Fresh.list (items.map (·.shift δ))) := by
  intro next
  show (Value.list (next + δ.identities) (items.map (·.shift δ)),
    next + δ.identities + 1) = ((Value.list next items).shift δ, next + 1 + δ.identities)
  rw [Value.shift_list, Nat.add_right_comm]

theorem identity : Fresh.Shifts δ (· + δ.identities) Fresh.identity Fresh.identity := by
  intro next
  show (next + δ.identities, next + δ.identities + 1) =
    (next + δ.identities, next + 1 + δ.identities)
  rw [Nat.add_right_comm]

theorem mapM {γ' : Type} {f : α → β} {g : γ → γ'} {x : α → Fresh γ} {y : β → Fresh γ'}
    (h : ∀ a, Fresh.Shifts δ g (x a) (y (f a))) (as : List α) :
    Fresh.Shifts δ (List.map g) (as.mapM x) ((as.map f).mapM y) := by
  induction as with
  | nil => exact pure rfl
  | cons a as ih =>
      rw [List.map_cons, List.mapM_cons, List.mapM_cons]
      exact (h a).bind fun _ => ih.bind fun _ => pure rfl

theorem foldlM {γ' : Type} {f : α → β} {g : γ → γ'} {x : γ → α → Fresh γ}
    {y : γ' → β → Fresh γ'} (h : ∀ c a, Fresh.Shifts δ g (x c a) (y (g c) (f a))) (c : γ)
    (as : List α) : Fresh.Shifts δ g (as.foldlM x c) ((as.map f).foldlM y (g c)) := by
  induction as generalizing c with
  | nil => exact pure rfl
  | cons a as ih =>
      rw [List.map_cons, List.foldlM_cons, List.foldlM_cons]
      exact (h c a).bind fun c => ih c

end Fresh.Shifts

mutual

/-- What is read holds nothing made before. -/
theorem Datum.toValue_shifts (δ : Shift) :
    ∀ d : Datum, Fresh.Shifts δ (·.shift δ) d.toValue d.toValue
  | .int _ | .float _ | .symbol _ => .pure rfl
  | .list items => (Datum.toValues_shifts δ items).bind fun vs => .list vs

theorem Datum.toValues_shifts (δ : Shift) :
    ∀ ds : List Datum, Fresh.Shifts δ (List.map (·.shift δ)) (Datum.toValues ds)
      (Datum.toValues ds)
  | [] => .pure rfl
  | d :: ds => (Datum.toValue_shifts δ d).bind fun _ =>
      (Datum.toValues_shifts δ ds).bind fun _ => .pure rfl

end

end TwinScheme
