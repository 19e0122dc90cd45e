import TwinScheme.Proofs.Evaluator.Bridge
import TwinScheme.Lexical.Scoping
import TwinScheme.Textual.Scoping

/-!
# The limit on nesting only cuts off

An evaluation that did not fail for its limit never met it, so a higher limit
changes nothing: the result is the same, and so is everything the evaluation
left in memory. Nothing in evaluation catches the failure, resets the count or
shows it, and the proof is where that is checked. It compares the run with
itself under the bridge whose worlds say nothing: corresponding memories and
values are equal ones, and the failure for the limit is excused.
-/

namespace TwinScheme

open List (Forall₂)

/-- The failure of an evaluation nested too deep, with or without a context. -/
inductive Error.IsTooDeep : Error → Prop
  | intro (limit : Nat) (context : Option Value) :
      IsTooDeep (.eval (.tooDeep limit) context)

theorem Error.IsTooDeep.within {e : Error} (h : e.IsTooDeep) (expr : Value) :
    (e.within expr).IsTooDeep := by
  obtain ⟨limit, context⟩ := h
  cases context with
  | none =>
      rw [Error.within]
      split
      · exact .intro limit none
      · exact .intro limit (some expr)
  | some c => exact .intro limit (some c)

variable {σ ρ α β : Type}

/-! ## One computation and itself -/

/-- Equal memories, equal values, and the limit excused. -/
def Bridge.cutOff (σ : Type) : Bridge σ σ where
  World := Unit
  le _ _ := True
  le_refl _ := trivial
  le_trans _ _ := trivial
  memory _ m n := m = n
  value _ a b := a = b
  value_mono _ _ _ _ _ h := h
  error e f := e = f
  excused := Error.IsTooDeep

/-- The second computation does what the first does, unless the first is nested
too deep. -/
def Settles (x y : Eval σ α) : Prop :=
  (Bridge.cutOff σ).Tracks () x y fun _ a b => a = b

namespace Settles

theorem refl (x : Eval σ α) : Settles x x := by
  rintro m n rfl
  rcases Eval.runFrom m x with ⟨_ | _, m'⟩
  · exact .error (v := ()) trivial rfl rfl
  · exact .ok (v := ()) trivial rfl rfl

theorem bind {x y : Eval σ α} {f g : α → Eval σ β} (h : Settles x y)
    (hf : ∀ a, Settles (f a) (g a)) : Settles (x >>= f) (y >>= g) := by
  refine Bridge.Tracks.bind h fun v a b _ hab => ?_
  cases hab
  exact hf a

theorem mapM {f g : α → Eval σ β} (hf : ∀ a, Settles (f a) (g a)) (xs : List α) :
    Settles (xs.mapM f) (xs.mapM g) := by
  induction xs with
  | nil => exact .refl _
  | cons x xs ih =>
      rw [List.mapM_cons, List.mapM_cons]
      exact (hf x).bind fun b => ih.bind fun bs => .refl _

theorem runFrom_eq {x y : Eval σ α} (h : Settles x y) (m : Memory σ)
    (hdeep : ∀ e, (Eval.runFrom m x).1 = .error e → ¬e.IsTooDeep) :
    Eval.runFrom m y = Eval.runFrom m x := by
  have hends := h m m rfl
  generalize Eval.runFrom m x = r at hends hdeep ⊢
  generalize Eval.runFrom m y = s at hends ⊢
  cases hends with
  | ok _ hm hab => cases hm; cases hab; rfl
  | error _ hm he => cases hm; cases he; rfl
  | excused he => exact absurd he (hdeep _ rfl)

end Settles

theorem Bridge.cutOff_lawful : (Bridge.cutOff σ).Lawful where
  error_eval _ := rfl
  bool _ _ := rfl
  unspecified _ := rfl
  truthy h := congrArg _ h
  list h := by
    cases (List.forall₂_eq_eq_eq ▸ h : _ = _)
    exact Settles.refl _
  primitive h := h.symm
  created h hp := h ▸ hp
  call p h := by
    cases (List.forall₂_eq_eq_eq ▸ h : _ = _)
    rcases p.call _ with e | v | vs | ⟨f, calls⟩
    · exact .error rfl
    · exact .value rfl
    · exact .fresh (List.forall₂_same.2 fun _ _ => rfl)
    · exact .each rfl (List.forall₂_same.2 fun _ _ => List.forall₂_same.2 fun _ _ => rfl)

/-! ## The evaluator -/

namespace Scoping

variable {S : Scoping σ ρ}

theorem evalSequence_settles {ev ev' : Value → Eval σ Value}
    (hev : ∀ e, Settles (ev e) (ev' e)) (body : List Value) :
    Settles (evalSequence ev body) (evalSequence ev' body) := by
  refine Bridge.cutOff_lawful.evalSequence (R := fun _ a b => a = b) (fun _ _ _ _ _ h => h)
    (List.forall₂_same.2 fun _ _ => rfl) ?_
  rintro v a b - rfl
  exact hev a

theorem evalClauses_settles {ev ev' : Value → Eval σ Value}
    (hev : ∀ e, Settles (ev e) (ev' e)) (clauses : List Value) :
    Settles (evalClauses ev clauses) (evalClauses ev' clauses) := by
  refine Bridge.cutOff_lawful.evalClauses (R := fun _ a b => a = b) (C := fun _ a b => a = b)
    (fun _ _ _ _ _ h => h) (fun _ _ _ _ _ h => h) (List.forall₂_same.2 fun _ _ => rfl) ?_ ?_
  · rintro v c _ - rfl
    have hbody : ∀ b : List Value, Forall₂ (fun a b => a = b) b b :=
      fun b => List.forall₂_same.2 fun _ _ => rfl
    cases h : Form.clause c with
    | error e => exact .refused h h rfl
    | ok parts =>
        obtain ⟨t, b⟩ := parts
        cases ht : Form.isElse t with
        | true => exact .otherwise h h ht ht (hbody b)
        | false => exact .tested h h ht ht rfl (hbody b)
  · rintro v a b - rfl
    exact hev a

theorem evalForm_settles {ev ev' : Value → Eval σ Value}
    (hev : ∀ e, Settles (ev e) (ev' e)) (env : ρ) (f : Form) :
    Settles (S.evalForm ev env f) (S.evalForm ev' env f) := by
  cases f with
  | quote datum => exact .refl _
  | define name expr => exact (hev expr).bind fun v => .refl _
  | defineProcedure name params body => exact .refl _
  | assign name expr => exact (hev expr).bind fun v => .refl _
  | ite test yes no =>
      refine (hev test).bind fun v => ?_
      split
      · exact hev yes
      · cases no with
        | some no => exact hev no
        | none => exact .refl _
  | cond clauses => exact evalClauses_settles hev clauses
  | sequence body => exact evalSequence_settles hev body
  | bind pairs body =>
      exact (Settles.refl _).bind fun body' => evalSequence_settles hev body'
  | lambda params body => exact .refl _

theorem apply_settles (hleave : ∀ body e, e.IsTooDeep → (S.leave body e).IsTooDeep)
    {ev ev' : ρ → Value → Eval σ Value} (hev : ∀ env e, Settles (ev env e) (ev' env e))
    (f : Value) (args : List Value) : Settles (S.apply ev f args) (S.apply ev' f args) := by
  refine Bridge.cutOff_lawful.apply (w := ()) ?_ rfl (List.forall₂_same.2 fun _ _ => rfl)
  rintro v f _ args args' - hf rfl hargs
  cases (List.forall₂_eq_eq_eq ▸ hargs : _ = _)
  rw [apply_created S ev args hf, apply_created S ev' args hf]
  refine (Settles.refl _).bind fun entered => ?_
  exact Bridge.Tracks.rethrow (hev _ _) (fun e f h => congrArg _ h) (hleave _)

theorem evalList_settles (hleave : ∀ body e, e.IsTooDeep → (S.leave body e).IsTooDeep)
    {ev ev' : ρ → Value → Eval σ Value} (hev : ∀ env e, Settles (ev env e) (ev' env e))
    (env : ρ) (items : List Value) :
    Settles (S.evalList ev env items) (S.evalList ev' env items) := by
  cases items with
  | nil => exact .refl _
  | cons head rest =>
      rw [evalList, evalList]
      split
      · exact (Settles.refl _).bind fun f => evalForm_settles (hev env) env f
      · refine (hev env head).bind fun f => ?_
        exact (Settles.mapM (hev env) rest).bind fun args => apply_settles hleave hev f args

/-- More levels change nothing for an evaluation that was not short of them. -/
theorem eval_settles (hleave : ∀ body e, e.IsTooDeep → (S.leave body e).IsTooDeep)
    {limit limit' d d' : Nat} (hle : d ≤ d') (env : ρ) (e : Value) :
    Settles (S.eval limit d env e) (S.eval limit' d' env e) := by
  induction d generalizing d' env e with
  | zero =>
      cases e with
      | symbol name =>
          rw [eval_symbol_zero]
          exact .excused (.intro limit none)
      | list id items =>
          rw [eval_list_zero]
          exact .excused (.intro limit none)
      | _ =>
          rw [eval_of_isSelfEvaluating S limit _ _ rfl, eval_of_isSelfEvaluating S limit' _ _ rfl]
          exact .refl _
  | succ d ih =>
      obtain ⟨d', rfl⟩ : ∃ k, d' = k + 1 := ⟨d' - 1, by omega⟩
      cases e with
      | symbol name =>
          rw [eval_symbol_succ, eval_symbol_succ]
          exact .refl _
      | list id items =>
          rw [eval_list_succ, eval_list_succ]
          exact evalList_settles hleave (fun env e => ih (by omega) env e) env items
      | _ =>
          rw [eval_of_isSelfEvaluating S limit _ _ rfl, eval_of_isSelfEvaluating S limit' _ _ rfl]
          exact .refl _

end Scoping

/-- A limit that an evaluation did not fail for is only ever a cut-off: from the
same memory, under either way of binding names, every higher limit gives the
same result and leaves the same memory. -/
theorem evaluate_eq_of_le {d d' : Nat} (hle : d ≤ d') :
    (∀ (env : Environment) (expr : Value) (m : Memory Heap),
      (∀ e, (Eval.runFrom m (Scoping.lexical.evaluate d env expr)).1 = .error e →
        ¬e.IsTooDeep) →
      Eval.runFrom m (Scoping.lexical.evaluate d' env expr) =
        Eval.runFrom m (Scoping.lexical.evaluate d env expr)) ∧
    (∀ (expr : Value) (m : Memory Bindings),
      (∀ e, (Eval.runFrom m (Scoping.textual.evaluate d () expr)).1 = .error e →
        ¬e.IsTooDeep) →
      Eval.runFrom m (Scoping.textual.evaluate d' () expr) =
        Eval.runFrom m (Scoping.textual.evaluate d () expr)) := by
  constructor
  · intro env expr m hdeep
    have hleave : ∀ body e, e.IsTooDeep → (Scoping.lexical.leave body e).IsTooDeep :=
      fun body e h => h.within body
    exact (Scoping.eval_settles hleave hle env expr).runFrom_eq m hdeep
  · intro expr m hdeep
    have hleave : ∀ body e, e.IsTooDeep → (Scoping.textual.leave body e).IsTooDeep :=
      fun body e h => h
    exact (Scoping.eval_settles hleave hle () expr).runFrom_eq m hdeep

/-- `((lambda (x) x) 7)`, which nests two levels deep. -/
def callOfIdentity : Value :=
  .list 2 [.list 1 [.symbol "lambda", .list 0 [.symbol "x"], .symbol "x"], .int 7]

theorem callOfIdentity_lexical :
    (Eval.runFrom ⟨3, ⟨#[]⟩⟩ (Scoping.lexical.evaluate 2 ⟨0, []⟩ callOfIdentity)).1 =
      .ok (.int 7) := by
  have hcall : Eval.runFrom ⟨3, ⟨#[]⟩⟩ (Scoping.lexical.evaluate 2 ⟨0, []⟩ callOfIdentity) =
      Eval.runFrom ⟨4, ⟨#[]⟩⟩ (Scoping.lexical.apply (Scoping.lexical.eval 2 1)
        (.closure 3 ["x"] (.symbol "x") ⟨0, []⟩) [.int 7]) :=
    Scoping.runFrom_combination _ 2 1 _ 2 rfl rfl rfl
  rw [hcall, Scoping.apply_created _ _ _ (by simp)]
  rfl

theorem callOfIdentity_textual :
    (Eval.runFrom ⟨3, ∅⟩ (Scoping.textual.evaluate 2 () callOfIdentity)).1 =
      .ok (.int 7) := by
  have hcall : Eval.runFrom ⟨3, ∅⟩ (Scoping.textual.evaluate 2 () callOfIdentity) =
      Eval.runFrom ⟨4, ∅⟩ (Scoping.textual.apply (Scoping.textual.eval 2 1)
        (.lambda 3 [.symbol "x"] (.symbol "x")) [.int 7]) :=
    Scoping.runFrom_combination _ 2 1 _ 2 rfl rfl rfl
  rw [hcall, Scoping.apply_created _ _ _ (by simp)]
  rfl

theorem callOfIdentity_evaluate_eq : 2 ≤ 1000 ∧
    Eval.runFrom ⟨3, ⟨#[]⟩⟩ (Scoping.lexical.evaluate 1000 ⟨0, []⟩ callOfIdentity) =
      Eval.runFrom ⟨3, ⟨#[]⟩⟩ (Scoping.lexical.evaluate 2 ⟨0, []⟩ callOfIdentity) ∧
    Eval.runFrom ⟨3, ∅⟩ (Scoping.textual.evaluate 1000 () callOfIdentity) =
      Eval.runFrom ⟨3, ∅⟩ (Scoping.textual.evaluate 2 () callOfIdentity) := by
  have hle : 2 ≤ 1000 := by decide
  refine ⟨hle, (evaluate_eq_of_le hle).1 _ _ _ ?_, (evaluate_eq_of_le hle).2 _ _ ?_⟩
  · intro e he
    rw [callOfIdentity_lexical] at he
    cases he
  · intro e he
    rw [callOfIdentity_textual] at he
    cases he

end TwinScheme
