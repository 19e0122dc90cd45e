import TwinScheme.Proofs.Evaluator.Bridge

/-!
# Two runs in lockstep

Many laws of scoping compare two runs that evaluate expressions of the same shape
and make calls at the same time: a program and the program with a parameter
renamed, a session that has the heap for itself and one that shares it, a session
and the same session later on. A run compared with itself belongs here too, since
what the comparison asks of corresponding values is then an invariant.

A `Lockstep` is a bridge that also says which expressions may be evaluated at
the same time. It is lawful if such expressions have the same shape, with
corresponding parts (`Step`), and if corresponding procedures are entered alike.
The one walk through the evaluator is here, and `eval_tracks` is what it comes
to; what names, frames and procedures do is left to each comparison.
-/

namespace TwinScheme

open List (Forall₂)

variable {σ τ ρ ρ' : Type}

/-- What two runs are compared by, each of which binds names in some way. -/
structure Lockstep (S : Scoping σ ρ) (S' : Scoping τ ρ') extends Bridge σ τ where
  /-- The expressions that may be evaluated at the same time, each at its place. -/
  code : World → ρ → ρ' → Value → Value → Prop

namespace Lockstep

variable {S : Scoping σ ρ} {S' : Scoping τ ρ'} (L : Lockstep S S')

/-! ## Expressions of one shape -/

/-- Definitions of two names do the same from now on. -/
def Defines (w : L.World) (env : ρ) (env' : ρ') (x x' : String) : Prop :=
  ∀ v a b, L.le w v → L.value v a b →
    L.Tracks v (Eval.rebind fun bound => S.define bound env x a)
      (Eval.rebind fun bound => S'.define bound env' x' b) fun _ _ _ => True

/-- Assignments to two names do the same from now on. -/
def Assigns (w : L.World) (env : ρ) (env' : ρ') (x x' : String) : Prop :=
  ∀ v a b, L.le w v → L.value v a b →
    L.Tracks v (S.assign env x a) (S'.assign env' x' b)
      fun _ _ _ => True

/-- Clauses of one shape. -/
inductive ClauseStep (w : L.World) (env : ρ) (env' : ρ') (c c' : Value) : Prop
  | refused {e e'} : Form.clause c = .error e → Form.clause c' = .error e' →
      L.error e e' → ClauseStep w env env' c c'
  | otherwise {t t' b b'} : Form.clause c = .ok (t, b) → Form.clause c' = .ok (t', b') →
      Form.isElse t = true → Form.isElse t' = true →
      Forall₂ (L.code w env env') b b' → ClauseStep w env env' c c'
  | tested {t t' b b'} : Form.clause c = .ok (t, b) → Form.clause c' = .ok (t', b') →
      Form.isElse t = false → Form.isElse t' = false → L.code w env env' t t' →
      Forall₂ (L.code w env env') b b' → ClauseStep w env env' c c'

/-- Special forms of one shape. -/
inductive FormStep (w : L.World) (env : ρ) (env' : ρ') : Form → Form → Prop
  | quote {d d'} : L.value w d d' → FormStep w env env' (.quote d) (.quote d')
  | define {x x' e e'} : L.code w env env' e e' → L.Defines w env env' x x' →
      FormStep w env env' (.define x e) (.define x' e')
  | defineProcedure {x x' params params' body body'} :
      L.Tracks w
        (do S.procedure env (params.map .symbol) (← Eval.supply (Form.single body)))
        (do
          S'.procedure env' (params'.map .symbol)
            (← Eval.supply (Form.single body'))) L.value →
      L.Defines w env env' x x' →
      FormStep w env env' (.defineProcedure x params body) (.defineProcedure x' params' body')
  | assign {x x' e e'} : L.code w env env' e e' → L.Assigns w env env' x x' →
      FormStep w env env' (.assign x e) (.assign x' e')
  | ite {t t' y y' n n'} : L.code w env env' t t' → L.code w env env' y y' →
      Option.Rel (L.code w env env') n n' → FormStep w env env' (.ite t y n) (.ite t' y' n')
  | cond {clauses clauses'} : Forall₂ (L.ClauseStep w env env') clauses clauses' →
      FormStep w env env' (.cond clauses) (.cond clauses')
  | sequence {body body'} : Forall₂ (L.code w env env') body body' →
      FormStep w env env' (.sequence body) (.sequence body')
  | bind {pairs pairs' body body'} :
      L.Tracks w (S.expand pairs body) (S'.expand pairs' body')
        (fun v => Forall₂ (L.code v env env')) →
      FormStep w env env' (.bind pairs body) (.bind pairs' body')
  | lambda {params params' body body'} :
      L.Tracks w (S.procedure env params body)
        (S'.procedure env' params' body') L.value →
      FormStep w env env' (.lambda params body) (.lambda params' body')

/-- Expressions of one shape. -/
inductive Step (w : L.World) (env : ρ) (env' : ρ') : Value → Value → Prop
  | value {e e'} : e.isSelfEvaluating = true → e'.isSelfEvaluating = true → L.value w e e' →
      Step w env env' e e'
  | symbol {x x'} :
      L.Tracks w (S.resolve env x) (S'.resolve env' x') L.value →
      Step w env env' (.symbol x) (.symbol x')
  | empty {i j} : Step w env env' (.list i []) (.list j [])
  | combination {i j head head' rest rest'} : Form.keyword? head = none →
      Form.keyword? head' = none → L.code w env env' head head' →
      Forall₂ (L.code w env env') rest rest' →
      Step w env env' (.list i (head :: rest)) (.list j (head' :: rest'))
  | refused {i j k head head' rest rest' e e'} : Form.keyword? head = some k →
      Form.keyword? head' = some k → Form.parse k rest = .error e →
      Form.parse k rest' = .error e' → L.error e e' →
      Step w env env' (.list i (head :: rest)) (.list j (head' :: rest'))
  | form {i j k head head' rest rest' f f'} : Form.keyword? head = some k →
      Form.keyword? head' = some k → Form.parse k rest = .ok f → Form.parse k rest' = .ok f' →
      L.FormStep w env env' f f' →
      Step w env env' (.list i (head :: rest)) (.list j (head' :: rest'))

/-- What a comparison has to provide. -/
structure Lawful : Prop where
  bridge : L.toBridge.Lawful
  not_excused : ∀ e, ¬L.excused e
  persists : ∀ env env', L.Persists fun w => L.code w env env'
  step : ∀ {w env env' e e'}, L.code w env env' e e' → L.Step w env env' e e'
  leave : ∀ {w env env' b b' e f}, L.code w env env' b b' → L.error e f →
    L.error (S.leave b e) (S'.leave b' f)
  enter : ∀ {w f f' args args'}, L.value w f f' → (∀ p, f ≠ .primitive p) →
    Forall₂ (L.value w) args args' →
    L.Tracks w (S.enter f args) (S'.enter f' args')
      fun v r r' => L.code v r.1 r'.1 r.2 r'.2

variable {L}

theorem ClauseStep.persists (hL : L.Lawful) (env : ρ) (env' : ρ') :
    L.Persists fun w => L.ClauseStep w env env' := by
  intro v w c c' hle h
  have hcode := hL.persists env env'
  cases h with
  | refused h h' he => exact .refused h h' he
  | otherwise h h' ht ht' hbody =>
      exact .otherwise h h' ht ht' (hbody.imp fun _ _ => hcode _ _ _ _ hle)
  | tested h h' ht ht' htest hbody =>
      exact .tested h h' ht ht' (hcode _ _ _ _ hle htest)
        (hbody.imp fun _ _ => hcode _ _ _ _ hle)

/-! ## The evaluator -/

/-- Evaluators that do the same on expressions that may be evaluated at the same
time. -/
def Evaluates (L : Lockstep S S') (ev : ρ → Value → Eval σ Value)
    (ev' : ρ' → Value → Eval τ Value) : Prop :=
  ∀ {w env env' e e'}, L.code w env env' e e' → L.Tracks w (ev env e) (ev' env' e') L.value

variable {w : L.World} {env : ρ} {env' : ρ'} {ev : ρ → Value → Eval σ Value}
  {ev' : ρ' → Value → Eval τ Value}

theorem Evaluates.agrees (hev : L.Evaluates ev ev') (w : L.World) (env : ρ) (env' : ρ') :
    L.Agrees w (fun v => L.code v env env') (ev env) (ev' env') :=
  fun _ _ _ _ h => hev h

theorem clauses_tracks (hL : L.Lawful) (hev : L.Evaluates ev ev') {clauses clauses' : List Value}
    (h : Forall₂ (L.ClauseStep w env env') clauses clauses') :
    L.Tracks w (Scoping.evalClauses (ev env) clauses) (Scoping.evalClauses (ev' env') clauses')
      L.value := by
  refine hL.bridge.evalClauses (hL.persists env env') (ClauseStep.persists hL env env') h ?_
    (hev.agrees w env env')
  intro v c c' _ hc
  cases hc with
  | refused h h' he => exact .refused h h' he
  | otherwise h h' ht ht' hbody => exact .otherwise h h' ht ht' hbody
  | tested h h' ht ht' htest hbody => exact .tested h h' ht ht' htest hbody

theorem form_tracks (hL : L.Lawful) (hev : L.Evaluates ev ev') {f f' : Form}
    (h : L.FormStep w env env' f f') :
    L.Tracks w (S.evalForm (ev env) env f)
      (S'.evalForm (ev' env') env' f') L.value := by
  have hdone : ∀ v, L.Tracks v (pure .unspecified) (pure .unspecified) L.value :=
    fun v => .pure (hL.bridge.unspecified v)
  cases h with
  | quote hd => exact .pure hd
  | define he hdefines =>
      refine .bind (hev he) fun v a b hv hab => ?_
      exact .bind (hdefines v a b hv hab) fun u _ _ _ _ => hdone u
  | defineProcedure hprocedure hdefines =>
      simp only [Scoping.evalForm, ← bind_assoc]
      exact .bind (.bind hprocedure hdefines) fun v _ _ _ _ => hdone v
  | assign he hassigns =>
      refine .bind (hev he) fun v a b hv hab => ?_
      exact .bind (hassigns v a b hv hab) fun u _ _ _ _ => hdone u
  | ite ht hy hn =>
      refine .bind (hev ht) fun v a b hv hab => ?_
      rw [← hL.bridge.truthy hab]
      split
      · exact hev (hL.persists _ _ _ _ _ _ hv hy)
      · cases hn with
        | none => exact hdone v
        | some hn => exact hev (hL.persists _ _ _ _ _ _ hv hn)
  | cond hclauses => exact clauses_tracks hL hev hclauses
  | sequence hbody =>
      exact hL.bridge.evalSequence (hL.persists env env') hbody (hev.agrees w env env')
  | bind hexpand =>
      refine .bind hexpand fun v body body' _ hbody => ?_
      exact hL.bridge.evalSequence (hL.persists env env') hbody (hev.agrees v env env')
  | lambda hprocedure => exact hprocedure

theorem apply_tracks (hL : L.Lawful) (hev : L.Evaluates ev ev') {f f' : Value}
    {args args' : List Value} (hf : L.value w f f') (hargs : Forall₂ (L.value w) args args') :
    L.Tracks w (S.apply ev f args) (S'.apply ev' f' args')
      L.value := by
  refine hL.bridge.apply ?_ hf hargs
  intro v f f' args args' _ hp hf hargs
  rw [Scoping.apply_created _ _ _ hp,
    Scoping.apply_created _ _ _ (hL.bridge.created hf hp)]
  refine .bind (hL.enter hf hp hargs) fun u r r' _ hcode => ?_
  exact .rethrow (hev hcode) (fun _ _ => hL.leave hcode) fun e he => absurd he (hL.not_excused e)

theorem combination_tracks (hL : L.Lawful) (hev : L.Evaluates ev ev') {head head' : Value}
    {rest rest' : List Value} (hhead : L.code w env env' head head')
    (hrest : Forall₂ (L.code w env env') rest rest') :
    L.Tracks w
      (do
        let f ← ev env head
        let args ← rest.mapM (ev env)
        S.apply ev f args)
      (do
        let f ← ev' env' head'
        let args ← rest'.mapM (ev' env')
        S'.apply ev' f args) L.value := by
  refine .bind (hev hhead) fun v f f' hv hf => ?_
  refine .bind (Bridge.Tracks.mapM (hL.persists env env') L.value_mono
    (hrest.imp fun _ _ => hL.persists _ _ _ _ _ _ hv) fun u a b _ hab => hev hab) ?_
  intro u args args' hu hargs
  exact apply_tracks hL hev (L.value_mono _ _ _ _ hu hf) hargs

theorem list_tracks (hL : L.Lawful) (hev : L.Evaluates ev ev') {i j : Identity}
    {items items' : List Value} (h : L.Step w env env' (.list i items) (.list j items')) :
    L.Tracks w (S.evalList ev env items) (S'.evalList ev' env' items')
      L.value := by
  cases h with
  | value hself _ _ => cases hself
  | empty => exact .throw (hL.bridge.error_eval _)
  | combination hk hk' hhead hrest =>
      rw [Scoping.evalList_combination _ _ _ hk, Scoping.evalList_combination _ _ _ hk']
      exact combination_tracks hL hev hhead hrest
  | refused hk hk' hp hp' he =>
      rw [Scoping.evalList_form _ _ _ hk, Scoping.evalList_form _ _ _ hk', hp, hp']
      exact .throw he
  | form hk hk' hp hp' hf =>
      rw [Scoping.evalList_form _ _ _ hk, Scoping.evalList_form _ _ _ hk', hp, hp']
      exact form_tracks hL hev hf

/-- Expressions that may be evaluated at the same time evaluate alike, with
equally many levels left. -/
theorem eval_tracks (hL : L.Lawful) (limit left : Nat) :
    L.Evaluates (S.eval limit left) (S'.eval limit left) := by
  -- On the levels left. The shapes of two expressions decide alike whether one is taken.
  induction left with
  | zero =>
      intro w env env' e e' h
      cases hL.step h with
      | value hself hself' hvalue =>
          rw [Scoping.eval_of_isSelfEvaluating _ _ _ _ hself,
            Scoping.eval_of_isSelfEvaluating _ _ _ _ hself']
          exact .pure hvalue
      | symbol _ =>
          rw [Scoping.eval_symbol_zero, Scoping.eval_symbol_zero]
          exact .throw (hL.bridge.error_eval _)
      | _ =>
          rw [Scoping.eval_list_zero, Scoping.eval_list_zero]
          exact .throw (hL.bridge.error_eval _)
  | succ left ih =>
      intro w env env' e e' h
      cases hL.step h with
      | value hself hself' hvalue =>
          rw [Scoping.eval_of_isSelfEvaluating _ _ _ _ hself,
            Scoping.eval_of_isSelfEvaluating _ _ _ _ hself']
          exact .pure hvalue
      | symbol hresolve =>
          rw [Scoping.eval_symbol_succ, Scoping.eval_symbol_succ]
          exact hresolve
      | _ =>
          rw [Scoping.eval_list_succ, Scoping.eval_list_succ]
          exact list_tracks hL ih (hL.step h)

end Lockstep

end TwinScheme
