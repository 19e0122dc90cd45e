import TwinScheme.Lexical.Scoping
import TwinScheme.Proofs.Evaluator.Lockstep
import TwinScheme.Proofs.Lexical.Frames
import TwinScheme.Textual.Scoping

/-!
# What a run leaves of the bindings

A run changes the bindings in a few places only: at definitions, at assignments
and at calls, and, if its way of binding names wants to, where it expands a
`let`. So whatever each of these steps keeps, relating the bindings after it to
those before, every run keeps, and it makes no difference whether the run
succeeds or where it fails. A run beside itself does the same at every step, so
the lockstep it is in has the bindings for its worlds, and that relation for
their growth.

Here this is used for the plainest of such relations: under both ways of binding
names, what is bound stays bound. Frames are added and filled, definitions are
added, and no step takes a name away.
-/

namespace TwinScheme

open List (Forall₂)

variable {σ ρ α : Type}

/-- The bindings that a computation leaves are related to those that it found. -/
def Leads (R : σ → σ → Prop) (x : Eval σ α) : Prop :=
  ∀ m, R m.bound (Eval.runFrom m x).2.bound

/-- What every step of a discipline keeps. -/
structure Scoping.Keeps (S : Scoping σ ρ) (R : σ → σ → Prop) : Prop where
  refl : ∀ b, R b b
  trans : ∀ {a b c}, R a b → R b c → R a c
  define : ∀ b env x v, R b (S.define b env x v)
  overwrite : ∀ b env x v, S.find? b env x ≠ none → R b (S.overwrite b env x v)
  expand : ∀ pairs body, Leads R (S.expand pairs body)
  enter : ∀ f args, Leads R (S.enter f args)

namespace Scoping.Keeps

variable {S : Scoping σ ρ} {R : σ → σ → Prop}

/-- A run in lockstep with itself, in worlds that are what is bound. -/
def lockstep (hS : S.Keeps R) : Lockstep S S where
  World := σ
  le := R
  le_refl := hS.refl
  le_trans := hS.trans
  memory b m n := m = n ∧ m.bound = b
  value _ := Eq
  value_mono _ _ _ _ _ h := h
  error := Eq
  excused _ := False
  code _ env env' e e' := env = env' ∧ e = e'

variable (hS : S.Keeps R)

section

variable {w : σ} {env : ρ}

theorem tracks_of_leads {x : Eval σ α} (h : Leads R x) :
    hS.lockstep.Tracks w x x fun _ => Eq := by
  rintro m _ ⟨rfl, rfl⟩
  have hlead := h m
  generalize Eval.runFrom m x = r at hlead ⊢
  obtain ⟨e | a, n⟩ := r
  · exact .error hlead ⟨rfl, rfl⟩ rfl
  · exact .ok hlead ⟨rfl, rfl⟩ rfl

theorem leads_of_tracks {x : Eval σ α}
    (h : ∀ w, hS.lockstep.Tracks w x x fun _ => Eq) : Leads R x := by
  intro m
  have hends := h m.bound m m ⟨rfl, rfl⟩
  generalize Eval.runFrom m x = r at hends ⊢
  cases hends with
  | ok hv hm _ => exact hm.2 ▸ hv
  | error hv hm _ => exact hm.2 ▸ hv
  | excused he => exact he.elim

theorem ofExcept_tracks (r : Except Error α) :
    hS.lockstep.Tracks w (Eval.ofExcept r) (Eval.ofExcept r) fun _ => Eq := by
  cases r with
  | ok a => exact .pure rfl
  | error e => exact .throw rfl

theorem supply_tracks (x : Fresh α) :
    hS.lockstep.Tracks w (Eval.supply x) (Eval.supply x) fun _ => Eq :=
  hS.tracks_of_leads fun m => hS.refl m.bound

theorem resolve_tracks (x : String) :
    hS.lockstep.Tracks w (S.resolve env x) (S.resolve env x) fun _ => Eq := by
  refine hS.tracks_of_leads fun m => ?_
  rw [Scoping.runFrom_resolve]
  split <;> exact hS.refl m.bound

theorem procedure_tracks (params : List Value) (body : Value) :
    hS.lockstep.Tracks w (S.procedure env params body) (S.procedure env params body)
      fun _ => Eq := by
  refine .bind (hS.ofExcept_tracks _) ?_
  rintro v make _ _ rfl
  refine .bind (hS.supply_tracks _) ?_
  rintro u id _ _ rfl
  exact .pure rfl

theorem defines (x : String) : hS.lockstep.Defines w env env x x := by
  rintro v a _ _ rfl m _ ⟨rfl, rfl⟩
  exact .ok (hS.define m.bound env x a) ⟨rfl, rfl⟩ trivial

theorem assigns (x : String) : hS.lockstep.Assigns w env env x x := by
  rintro v a _ _ rfl m _ ⟨rfl, rfl⟩
  rw [Scoping.assign, Eval.runFrom_bind, Scoping.runFrom_resolve]
  cases hx : S.find? m.bound env x with
  | none => exact .error (hS.refl m.bound) ⟨rfl, rfl⟩ rfl
  | some b =>
      have hfound : S.find? m.bound env x ≠ none := by
        rw [hx]
        nofun
      exact .ok (hS.overwrite m.bound env x a hfound) ⟨rfl, rfl⟩ trivial

theorem codes (es : List Value) : Forall₂ (hS.lockstep.code w env env) es es :=
  List.forall₂_same.2 fun _ _ => ⟨rfl, rfl⟩

theorem clauseStep (c : Value) : hS.lockstep.ClauseStep w env env c c := by
  cases hc : Form.clause c with
  | error e => exact .refused hc hc rfl
  | ok parts =>
      cases ht : Form.isElse parts.1 with
      | true => exact .otherwise hc hc ht ht (hS.codes _)
      | false => exact .tested hc hc ht ht ⟨rfl, rfl⟩ (hS.codes _)

theorem formStep (f : Form) : hS.lockstep.FormStep w env env f f := by
  cases f with
  | quote datum => exact .quote rfl
  | define name expr => exact .define ⟨rfl, rfl⟩ (hS.defines name)
  | defineProcedure name params body =>
      refine .defineProcedure (.bind (hS.supply_tracks _) ?_) (hS.defines name)
      rintro v body _ _ rfl
      exact hS.procedure_tracks _ body
  | assign name expr => exact .assign ⟨rfl, rfl⟩ (hS.assigns name)
  | ite test yes no =>
      refine .ite ⟨rfl, rfl⟩ ⟨rfl, rfl⟩ ?_
      cases no with
      | none => exact .none
      | some no => exact .some ⟨rfl, rfl⟩
  | cond clauses => exact .cond (List.forall₂_same.2 fun c _ => hS.clauseStep c)
  | sequence body => exact .sequence (hS.codes body)
  | bind pairs body =>
      refine .bind ((hS.tracks_of_leads (hS.expand pairs body)).consequence ?_)
      rintro v es _ _ rfl
      exact hS.codes es
  | lambda params body => exact .lambda (hS.procedure_tracks params body)

theorem step (e : Value) : hS.lockstep.Step w env env e e := by
  cases hself : e.isSelfEvaluating with
  | true => exact .value hself hself rfl
  | false =>
      cases e with
      | symbol x => exact .symbol (hS.resolve_tracks x)
      | list id items =>
          cases items with
          | nil => exact .empty
          | cons head rest =>
              cases hk : Form.keyword? head with
              | none => exact .combination hk hk ⟨rfl, rfl⟩ (hS.codes rest)
              | some k =>
                  cases hp : Form.parse k rest with
                  | error e => exact .refused hk hk hp hp rfl
                  | ok f => exact .form hk hk hp hp (hS.formStep f)
      | _ => cases hself

end

theorem lockstep_lawful : hS.lockstep.Lawful where
  bridge := {
    error_eval := fun _ => rfl
    bool := fun _ _ => rfl
    unspecified := fun _ => rfl
    truthy := fun h => congrArg Value.isTruthy h
    list := by
      intro w vs vs' h
      obtain rfl : vs = vs' := List.forall₂_eq_eq_eq ▸ h
      exact hS.supply_tracks _
    primitive := fun h => h.symm
    created := fun h hp => h ▸ hp
    call := by
      intro w args args' p h
      obtain rfl : args = args' := List.forall₂_eq_eq_eq ▸ h
      rcases p.call args with e | v | vs | ⟨f, calls⟩
      · exact .error rfl
      · exact .value rfl
      · exact .fresh (List.forall₂_same.2 fun _ _ => rfl)
      · exact .each rfl (List.forall₂_same.2 fun c _ => List.forall₂_same.2 fun _ _ => rfl) }
  not_excused _ h := h
  persists _ _ _ _ _ _ _ h := h
  step := by
    rintro w env _ e _ ⟨rfl, rfl⟩
    exact hS.step e
  leave := by
    rintro w env _ b _ e _ ⟨rfl, rfl⟩ rfl
    rfl
  enter := by
    rintro w f _ args args' rfl _ hargs
    obtain rfl : args = args' := List.forall₂_eq_eq_eq ▸ hargs
    refine (hS.tracks_of_leads (hS.enter f args)).consequence ?_
    rintro v r _ _ rfl
    exact ⟨rfl, rfl⟩

/-- Every run keeps what every step keeps. -/
theorem eval (hS : S.Keeps R) (limit left : Nat) (env : ρ) (e : Value) :
    Leads R (S.eval limit left env e) :=
  hS.leads_of_tracks fun _ =>
    Lockstep.eval_tracks hS.lockstep_lawful limit left ⟨rfl, rfl⟩

end Scoping.Keeps

/-! ## What is bound stays bound -/

/-- Every name that one set of bindings has, another has too. -/
def Bindings.Within (b b' : Bindings) : Prop :=
  ∀ x, b.contains x = true → b'.contains x = true

theorem Bindings.within_insert (b : Bindings) (x : String) (v : Value) :
    b.Within (b.insert x v) := by
  intro y hy
  rw [contains, get?_insert]
  split
  · rfl
  · exact hy

/-- Every frame of one heap has the names in another that it has in the one. -/
def Heap.Within (h h' : Heap) : Prop :=
  ∀ i, (h.frame i).Within (h'.frame i)

theorem Heap.within_write (h : Heap) (i : Nat) (x : String) (v : Value) :
    h.Within (h.write i x v) :=
  fun _ _ hy => contains_frame_write hy

theorem Heap.within_push (h : Heap) (b : Bindings) : h.Within (h.push b) := by
  intro j y hy
  have hj : j ≠ h.frames.size := by
    rintro rfl
    rw [frame_of_size_le (Nat.le_refl _)] at hy
    cases hy
  rw [frame_push_of_ne hj]
  exact hy

theorem Scoping.lexical_keeps_within : Scoping.lexical.Keeps Heap.Within where
  refl _ _ _ hy := hy
  trans h h' i y hy := h' i y (h i y hy)
  define b env x v := b.within_write env.innermost x v
  overwrite b env x v hx := by
    obtain ⟨i, -, -, heq⟩ := Heap.exists_overwrite_eq hx v
    show b.Within (b.overwrite env x v)
    rw [heq]
    exact b.within_write i x v
  expand pairs body m := by
    have hbound : (Eval.runFrom m (Scoping.lexical.expand pairs body)).2.bound = m.bound := by
      show (Eval.runFrom m (Eval.ofExcept (pairs.mapM Lexical.binderName) >>= _)).2.bound = _
      rw [Eval.runFrom_bind]
      cases pairs.mapM Lexical.binderName <;> rfl
    rw [hbound]
    exact fun _ _ hy => hy
  enter f args m := by
    cases f with
    | closure id params body env =>
        show m.bound.Within (Eval.runFrom m (Lexical.enter _ args)).2.bound
        rw [Lexical.enter]
        split
        · exact fun _ _ hy => hy
        · exact m.bound.within_push (Lexical.frame params args)
    | _ => exact fun _ _ hy => hy

theorem Scoping.textual_keeps_within : Scoping.textual.Keeps Bindings.Within where
  refl _ _ hy := hy
  trans h h' y hy := h' y (h y hy)
  define b _ x v := b.within_insert x v
  overwrite b _ x v _ := b.within_insert x v
  expand _ _ _ _ hy := hy
  enter f args m := by
    cases f with
    | lambda id params body =>
        show m.bound.Within (Eval.runFrom m (Textual.enter _ args)).2.bound
        rw [Textual.enter]
        split <;> exact fun _ hy => hy
    | _ => exact fun _ hy => hy

/-- A name that means something in an environment is bound in one of its frames. -/
theorem Heap.find?_ne_none_iff {h : Heap} {env : Environment} {x : String} :
    h.find? env x ≠ none ↔ ∃ i ∈ env.frames, (h.frame i).contains x = true := by
  rw [find?_eq_findSome?, ne_eq, List.findSome?_eq_none_iff]
  simp only [Bindings.contains, not_forall, ← Option.ne_none_iff_isSome, ne_eq, exists_prop]

theorem Heap.Within.find? {h h' : Heap} (hle : h.Within h') {env : Environment} {x : String}
    (hx : h.find? env x ≠ none) : h'.find? env x ≠ none := by
  obtain ⟨i, hi, hc⟩ := Heap.find?_ne_none_iff.1 hx
  exact Heap.find?_ne_none_iff.2 ⟨i, hi, hle i x hc⟩

end TwinScheme
