import TwinScheme.Proofs.Evaluator.Forms
import TwinScheme.Proofs.Evaluator.Lockstep
import TwinScheme.Proofs.Evaluator.Shift

/-!
# A run that starts late

One program is run twice, the second time in a memory in which other things were
made before. Everything the second run makes is what the first one makes, shifted
by what was there, and so are the forms it reads and the errors it reports.

A discipline has to do its part: its look-ups, definitions and calls have to be
the shifts of what they were. `Scoping.Shifts` lists what that is, in terms of a
relation between what names are bound to in the two runs; the rest is the
lockstep of evaluators.
-/

namespace TwinScheme

open List (Forall₂)

variable {δ : Shift}

/-! ## Forms -/

/-- The form with parts that are made that much later. -/
def Form.shift (δ : Shift) : Form → Form
  | .quote datum => .quote (datum.shift δ)
  | .define name expr => .define name (expr.shift δ)
  | .defineProcedure name params body => .defineProcedure name params (body.map (·.shift δ))
  | .assign name expr => .assign name (expr.shift δ)
  | .ite test yes no => .ite (test.shift δ) (yes.shift δ) (no.map (·.shift δ))
  | .cond clauses => .cond (clauses.map (·.shift δ))
  | .sequence body => .sequence (body.map (·.shift δ))
  | .bind pairs body =>
    .bind (pairs.map fun pair => (pair.1.shift δ, pair.2.shift δ)) (body.map (·.shift δ))
  | .lambda params body => .lambda (params.map (·.shift δ)) (body.shift δ)

/-- A check of what is made later: it passes with the image of what the check
passed with, or fails with an error that reads the same. -/
abbrev Checks {α β : Type} (f : α → β) : Except Error α → Except Error β → Prop :=
  Checked id fun a b => b = f a

theorem Checks.mapM {α β α' β' : Type} {f : α → β} {g : α' → β'} {x : α → Except Error α'}
    {y : β → Except Error β'} (h : ∀ a, Checks g (x a) (y (f a))) (as : List α) :
    Checks (List.map g) (as.mapM x) ((as.map f).mapM y) := by
  induction as with
  | nil => exact .ok rfl
  | cons a as ih =>
      rw [List.map_cons, List.mapM_cons, List.mapM_cons]
      refine Checked.bind (h a) ?_
      rintro c _ rfl
      refine Checked.bind ih ?_
      rintro cs _ rfl
      exact .ok rfl

namespace Form

theorem keyword?_shift (v : Value) : keyword? (v.shift δ) = keyword? v := by
  cases v <;> rfl

theorem isElse_shift (v : Value) : isElse (v.shift δ) = isElse v := by
  cases v <;> rfl

theorem repeated?_shift (seen : List String) (items : List Value) :
    repeated? seen (items.map (·.shift δ)) = repeated? seen items := by
  induction items generalizing seen with
  | nil => rfl
  | cons v rest ih =>
      cases v with
      | symbol name => exact ite_congr rfl (fun _ => rfl) fun _ => ih (name :: seen)
      | _ => exact ih seen

theorem distinct_checks (items : List Value) :
    Checks (List.map (·.shift δ)) (distinct items) (distinct (items.map (·.shift δ))) := by
  rw [distinct, distinct, repeated?_shift]
  cases repeated? [] items with
  | none => exact .ok rfl
  | some name => exact .refused (.eval (.refl _))

theorem binders_checks (params : Value) :
    Checks (List.map (·.shift δ)) (binders params) (binders (params.shift δ)) := by
  cases params with
  | list id items =>
      rw [Value.shift_list]
      exact distinct_checks items
  | _ => exact .refused (.type (.refl _))

theorem parameterName_checks (v : Value) :
    Checks id (parameterName v) (parameterName (v.shift δ)) := by
  cases v with
  | symbol name => exact .ok rfl
  | _ => exact .refused (.type (.parameterNotSymbol (Value.like_shift δ _)))

theorem parameterNames_checks (params : List Value) :
    Checks id (parameterNames params) (parameterNames (params.map (·.shift δ))) := by
  have hnames := Checks.mapM (parameterName_checks (δ := δ)) params
  rwa [List.map_id_fun] at hnames

theorem signature_checks (items : List Value) :
    Checks id (signature items) (signature (items.map (·.shift δ))) := by
  cases items with
  | nil => exact .refused (.type (.refl _))
  | cons v params =>
      cases v with
      | symbol name =>
          refine Checked.bind (distinct_checks params) ?_
          rintro params _ rfl
          refine Checked.bind (parameterNames_checks params) ?_
          rintro names _ rfl
          exact .ok rfl
      | _ => exact .refused (.type (.refl _))

theorem pair_checks (v : Value) :
    Checks (fun pair => (pair.1.shift δ, pair.2.shift δ)) (pair v) (pair (v.shift δ)) := by
  have hlike := Value.like_shift δ v
  cases v with
  | list id items =>
      rw [Value.shift_list] at hlike ⊢
      match items with
      | [] | [_] | _ :: _ :: _ :: _ => exact .refused (.type (.badBinding hlike))
      | [_, _] => exact .ok rfl
  | _ => exact .refused (.type (.badBinding hlike))

theorem pairs_checks (v : Value) :
    Checks (List.map fun pair => (pair.1.shift δ, pair.2.shift δ)) (pairs v)
      (pairs (v.shift δ)) := by
  cases v with
  | list id items =>
      rw [Value.shift_list]
      exact Checks.mapM pair_checks items
  | _ => exact .refused (.type (.refl _))

theorem clause_checks (v : Value) :
    Checks (fun c => (c.1.shift δ, c.2.map (·.shift δ))) (clause v) (clause (v.shift δ)) := by
  have hlike := Value.like_shift δ v
  cases v with
  | list id items =>
      rw [Value.shift_list] at hlike ⊢
      cases items with
      | nil => exact .refused (.type (.refl _))
      | cons test body => exact .ok rfl
  | _ => exact .refused (.type (.clauseNotList hlike))

theorem define_checks (args : List Value) :
    Checks (Form.shift δ) (parse .define args) (parse .define (args.map (·.shift δ))) := by
  rcases args with _ | ⟨a, _ | ⟨b, body⟩⟩
  · exact .refused (.arity _ _)
  · cases a <;> exact .refused (.arity _ _)
  · cases hlist : a.isList with
    | true =>
        cases a with
        | list id items =>
            rw [List.map_cons, List.map_cons, Value.shift_list]
            refine Checked.map (signature_checks items) ?_
            rintro ⟨name, params⟩ _ rfl
            rfl
        | _ => cases hlist
    | false =>
        cases body with
        | nil =>
            cases a with
            | symbol name => exact .ok rfl
            | list => cases hlist
            | _ => exact .refused (.type (.refl _))
        | cons c rest =>
            have hshift := (Value.isList_shift (δ := δ) a).trans hlist
            rw [List.map_cons, parse_define_of_length_ne hlist (by simp),
              parse_define_of_length_ne hshift (by simp), List.length_map]
            exact .refused (.arity _ _)

theorem assign_checks (args : List Value) :
    Checks (Form.shift δ) (parse .set args) (parse .set (args.map (·.shift δ))) := by
  cases args with
  | nil => exact .refused (.arity _ _)
  | cons a rest =>
      by_cases hone : rest.length = 1
      · obtain ⟨expr, rfl⟩ := List.length_eq_one_iff.1 hone
        cases a with
        | symbol name => exact .ok rfl
        | _ => exact .refused (.type (.refl _))
      · have hshift : (rest.map (·.shift δ)).length ≠ 1 := by rwa [List.length_map]
        rw [List.map_cons, parse_set_of_length_ne hone, parse_set_of_length_ne hshift,
          List.length_map]
        exact .refused (.arity _ _)

/-- What is made later is read as the form that is made later. -/
theorem parse_checks (k : Keyword) (args : List Value) :
    Checks (Form.shift δ) (parse k args) (parse k (args.map (·.shift δ))) := by
  cases k with
  | define => exact define_checks args
  | set => exact assign_checks args
  | cond => exact .ok rfl
  | begin => exact .ok rfl
  | quote =>
      rcases args with _ | ⟨datum, _ | ⟨a, rest⟩⟩
      · exact .refused (.arity _ _)
      · exact .ok rfl
      · simp only [List.map_cons, parse, List.length_cons, List.length_map]
        exact .refused (.arity _ _)
  | ite =>
      rcases args with _ | ⟨test, _ | ⟨yes, _ | ⟨no, _ | ⟨a, rest⟩⟩⟩⟩
      · exact .refused (.arity _ _)
      · exact .refused (.arity _ _)
      · exact .ok rfl
      · exact .ok rfl
      · simp only [List.map_cons, parse, List.length_cons, List.length_map]
        exact .refused (.arity _ _)
  | letForm =>
      rcases args with _ | ⟨bindings, _ | ⟨b, body⟩⟩
      · exact .refused (.arity _ _)
      · exact .refused (.eval (.refl _))
      · refine Checked.map (pairs_checks bindings) ?_
        rintro pairs _ rfl
        rfl
  | lambda =>
      rcases args with _ | ⟨params, _ | ⟨body, _ | ⟨a, rest⟩⟩⟩
      · exact .refused (.arity _ _)
      · exact .refused (.arity _ _)
      · refine Checked.map (binders_checks params) ?_
        rintro params _ rfl
        rfl
      · simp only [List.map_cons, parse, List.length_cons, List.length_map]
        exact .refused (.arity _ _)

end Form

/-! ## Two memories -/

variable {σ ρ : Type}

/-- A run beside one that starts late, given how what names are bound to is
related. -/
def late (δ : Shift) (R : σ → σ → Prop) : Bridge σ σ where
  World := Unit
  le _ _ := True
  le_refl _ := trivial
  le_trans _ _ := trivial
  memory _ m n := n.supply = m.supply + δ.identities ∧ R m.bound n.bound
  value _ a b := b = a.shift δ
  value_mono _ _ _ _ _ h := h
  error := Error.Same
  excused _ := False

section

variable {R : σ → σ → Prop} {w : (late δ R).World} {α β : Type}

theorem supply_late {f : α → β} {x : Fresh α} {y : Fresh β} (h : Fresh.Shifts δ f x y) :
    (late δ R).Tracks w (Eval.supply x) (Eval.supply y) fun _ a b => b = f a := by
  rintro ⟨next, b⟩ ⟨_, b'⟩ ⟨rfl, hb⟩
  rw [Eval.runFrom_supply, Eval.runFrom_supply, h next]
  exact .ok ((late δ R).le_refl w) ⟨rfl, hb⟩ rfl

theorem check_late {Q : α → β → Prop} {x : Except Error α} {y : Except Error β}
    (h : Checked id Q x y) :
    (late δ R).Tracks w (Eval.ofExcept x) (Eval.ofExcept y) fun _ => Q := by
  cases h with
  | ok hab => exact .pure hab
  | refused he => exact .throw he.same

theorem forall₂_shift {as bs : List Value} :
    Forall₂ ((late δ R).value w) as bs ↔ bs = as.map (·.shift δ) := by
  rw [eq_comm, ← List.forall₂_eq_eq_eq, List.forall₂_map_left_iff]
  exact ⟨fun h => h.imp fun _ _ hab => Eq.symm hab, fun h => h.imp fun _ _ hab => Eq.symm hab⟩

theorem late_lawful : (late δ R).Lawful where
  error_eval _ := .refl _
  bool _ _ := rfl
  unspecified _ := rfl
  truthy := by
    rintro w a _ rfl
    exact (Value.isTruthy_shift a).symm
  list {w vs vs'} h := by
    rw [forall₂_shift.1 h]
    exact supply_late (Fresh.Shifts.list vs)
  primitive := by
    rintro w p _ rfl
    rfl
  created := by
    rintro w a _ rfl hp p h
    cases a with
    | primitive q => exact hp q rfl
    | _ => cases h
  call {w args args'} p h := by
    have hargs : Forall₂ (Matches δ.correspondence) args args' :=
      h.imp fun _ _ hab => Matches.shift_iff.2 hab
    have hcall := p.call_likewise hargs
    generalize p.call args = r at hcall
    generalize p.call args' = r' at hcall
    cases hcall with
    | error he =>
        cases he with
        | refl => exact .error (.refl _)
        | needsProcedure p hgot =>
            rw [hgot.eq_shift]
            exact .error (Error.Raised.same (.type (.needsProcedure p (Value.like_shift δ _))))
    | ok houtcome =>
        cases houtcome with
        | value hv => exact .value hv.eq_shift
        | fresh hvs => exact .fresh (hvs.imp fun _ _ hab => hab.eq_shift)
        | each hf hcalls =>
            exact .each hf.eq_shift
              (hcalls.imp fun _ _ hargs => hargs.imp fun _ _ hab => hab.eq_shift)

end

/-! ## Disciplines -/

/-- What a discipline does later is the shift of what it does, given what becomes
of places. -/
structure Scoping.Shifts (S : Scoping σ ρ) (δ : Shift) (place : ρ → ρ) (R : σ → σ → Prop) :
    Prop where
  find? : ∀ {b b'} env x, R b b' → S.find? b' (place env) x = (S.find? b env x).map (·.shift δ)
  define : ∀ {b b'} env x v, R b b' → R (S.define b env x v) (S.define b' (place env) x (v.shift δ))
  overwrite : ∀ {b b'} env x v, R b b' →
    R (S.overwrite b env x v) (S.overwrite b' (place env) x (v.shift δ))
  close : ∀ env params body,
    Checked id (fun make make' => ∀ i, make' (i + δ.identities) = (make i).shift δ)
      (S.close env params body) (S.close (place env) (params.map (·.shift δ)) (body.shift δ))
  expand : ∀ w pairs body, (late δ R).Tracks w (S.expand pairs body)
    (S.expand (pairs.map fun pair => (pair.1.shift δ, pair.2.shift δ)) (body.map (·.shift δ)))
    fun _ es es' => es' = es.map (·.shift δ)
  enter : ∀ w f args, (late δ R).Tracks w (S.enter f args)
    (S.enter (f.shift δ) (args.map (·.shift δ))) fun _ r r' => r' = (place r.1, r.2.shift δ)
  leave : ∀ body {e f}, e.Same f → (S.leave body e).Same (S.leave (body.shift δ) f)

variable (S : Scoping σ ρ) (δ : Shift) (place : ρ → ρ) (R : σ → σ → Prop)

/-- The evaluation of an expression and the late evaluation of its shift. -/
def lateStart : Lockstep S S where
  toBridge := late δ R
  code _ env env' e e' := env' = place env ∧ e' = e.shift δ

variable {S δ place R} {w : (lateStart S δ place R).World} {env : ρ}

namespace Scoping.Shifts

theorem codes (env : ρ) (es : List Value) :
    Forall₂ ((lateStart S δ place R).code w env (place env)) es (es.map (·.shift δ)) :=
  List.forall₂_map_right_iff.2 (List.forall₂_same.2 fun _ _ => ⟨rfl, rfl⟩)

theorem clauseStep (env : ρ) (c : Value) :
    (lateStart S δ place R).ClauseStep w env (place env) c (c.shift δ) := by
  have hcheck := Form.clause_checks (δ := δ) c
  generalize hc : Form.clause c = r at hcheck
  generalize hc' : Form.clause (c.shift δ) = r' at hcheck
  cases hcheck with
  | refused he => exact .refused hc hc' he.same
  | @ok parts _ hparts =>
      obtain ⟨test, body⟩ := parts
      subst hparts
      cases ht : Form.isElse test with
      | true => exact .otherwise hc hc' ht ((Form.isElse_shift test).trans ht) (codes env body)
      | false =>
          exact .tested hc hc' ht ((Form.isElse_shift test).trans ht) ⟨rfl, rfl⟩ (codes env body)

theorem single_shifts (body : List Value) :
    Fresh.Shifts δ (·.shift δ) (Form.single body) (Form.single (body.map (·.shift δ))) := by
  match body with
  | [expr] => exact .pure rfl
  | [] => exact .list [.symbol Keyword.begin.name]
  | a :: b :: rest => exact .list (.symbol Keyword.begin.name :: a :: b :: rest)

variable (hS : S.Shifts δ place R)

include hS

theorem resolve (env : ρ) (x : String) :
    (lateStart S δ place R).Tracks w (S.resolve env x) (S.resolve (place env) x)
      (lateStart S δ place R).value := by
  rintro m n ⟨hsupply, hR⟩
  rw [Scoping.runFrom_resolve, Scoping.runFrom_resolve, hS.find? env x hR]
  cases S.find? m.bound env x with
  | none => exact .error ((late δ R).le_refl w) ⟨hsupply, hR⟩ (.unbound x)
  | some v => exact .ok ((late δ R).le_refl w) ⟨hsupply, hR⟩ rfl

theorem defines (env : ρ) (x : String) :
    (lateStart S δ place R).Defines w env (place env) x x := by
  rintro v a _ - rfl m n ⟨hsupply, hR⟩
  exact .ok ((late δ R).le_refl v) ⟨hsupply, hS.define env x a hR⟩ trivial

theorem assigns (env : ρ) (x : String) :
    (lateStart S δ place R).Assigns w env (place env) x x := by
  rintro v a _ - rfl
  refine .bind (hS.resolve env x) ?_
  rintro u _ _ - - m n ⟨hsupply, hR⟩
  exact .ok ((late δ R).le_refl u) ⟨hsupply, hS.overwrite env x a hR⟩ trivial

theorem procedure (env : ρ) (params : List Value) (body : Value) :
    (lateStart S δ place R).Tracks w (S.procedure env params body)
      (S.procedure (place env) (params.map (·.shift δ)) (body.shift δ))
      (lateStart S δ place R).value := by
  refine .bind (check_late (hS.close env params body)) ?_
  rintro v make make' - hmake
  refine .bind (supply_late Fresh.Shifts.identity) ?_
  rintro u i _ - rfl
  exact .pure (hmake i)

theorem formStep (env : ρ) (f : Form) :
    (lateStart S δ place R).FormStep w env (place env) f (f.shift δ) := by
  cases f with
  | quote datum => exact .quote rfl
  | define name expr => exact .define ⟨rfl, rfl⟩ (hS.defines env name)
  | defineProcedure name params body =>
      refine .defineProcedure (.bind (supply_late (single_shifts body)) ?_)
        (hS.defines env name)
      rintro v body _ - rfl
      have hprocedure := hS.procedure (w := v) env (params.map .symbol) body
      rwa [List.map_map] at hprocedure
  | assign name expr => exact .assign ⟨rfl, rfl⟩ (hS.assigns env name)
  | ite test yes no =>
      refine .ite ⟨rfl, rfl⟩ ⟨rfl, rfl⟩ ?_
      cases no with
      | none => exact .none
      | some no => exact .some ⟨rfl, rfl⟩
  | cond clauses =>
      refine .cond (List.forall₂_map_right_iff.2 (List.forall₂_same.2 fun c _ => ?_))
      exact clauseStep env c
  | sequence body => exact .sequence (codes env body)
  | bind pairs body =>
      refine .bind ((hS.expand w pairs body).consequence ?_)
      rintro v es _ - rfl
      exact codes env es
  | lambda params body => exact .lambda (hS.procedure env params body)

theorem step (env : ρ) (e : Value) :
    (lateStart S δ place R).Step w env (place env) e (e.shift δ) := by
  cases hself : e.isSelfEvaluating with
  | true => exact .value hself ((Value.isSelfEvaluating_shift e).trans hself) rfl
  | false =>
      cases e with
      | symbol x => exact .symbol (hS.resolve env x)
      | list id items =>
          rw [Value.shift_list]
          cases items with
          | nil => exact .empty
          | cons head rest =>
              cases hk : Form.keyword? head with
              | none =>
                  exact .combination hk ((Form.keyword?_shift head).trans hk) ⟨rfl, rfl⟩
                    (codes env rest)
              | some k =>
                  have hk' := (Form.keyword?_shift (δ := δ) head).trans hk
                  have hcheck := Form.parse_checks (δ := δ) k rest
                  generalize hp : Form.parse k rest = r at hcheck
                  generalize hp' : Form.parse k (rest.map (·.shift δ)) = r' at hcheck
                  cases hcheck with
                  | refused he => exact .refused hk hk' hp hp' he.same
                  | @ok f _ hf =>
                      subst hf
                      exact .form hk hk' hp hp' (hS.formStep env f)
      | _ => cases hself

theorem lateStart_lawful : (lateStart S δ place R).Lawful where
  bridge := late_lawful
  not_excused _ h := h
  persists _ _ _ _ _ _ _ h := h
  step := by
    rintro w env _ e _ ⟨rfl, rfl⟩
    exact hS.step env e
  leave := by
    rintro w env _ body _ e f ⟨rfl, rfl⟩ he
    exact hS.leave body he
  enter := by
    rintro w f _ args args' rfl - hargs
    rw [forall₂_shift.1 hargs]
    refine (hS.enter w f args).consequence ?_
    rintro v r _ - rfl
    exact ⟨rfl, rfl⟩

/-- What is evaluated late comes to what it would have come to, shifted. -/
theorem evaluate (limit : Nat) (env : ρ) (e : Value) :
    (late δ R).Tracks () (S.evaluate limit env e) (S.evaluate limit (place env) (e.shift δ))
      (late δ R).value :=
  Lockstep.eval_tracks hS.lateStart_lawful limit limit ⟨rfl, rfl⟩

end Scoping.Shifts

end TwinScheme
