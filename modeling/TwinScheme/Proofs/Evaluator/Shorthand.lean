import TwinScheme.Proofs.Evaluator.DepthLimit
import TwinScheme.Proofs.Textual.Replacement

/-!
# The shorthand for procedures

`(define (f a ...) e ...)` is short for `(define f (lambda (a ...) e'))`, where
`e'` is the body as one expression. The two forms take different ways: the names
of the shorthand are checked when its shape is, those of a `lambda` partly when
its shape is and partly when the procedure is made.

What counts as the same is said once for both ways of binding names, and so is
what each form comes to: a check of its parameters, then the making of a procedure
and the definition of a name. In an environment the two checks are the same one,
and the forms do the same wherever they stand.
-/

namespace TwinScheme

/-! ## The two forms -/

/-- `(define (f param ...) e ...)` -/
def shorthand (i j : Identity) (f : String) (params body : List Value) : Value :=
  Keyword.define.form i (.list j (.symbol f :: params) :: body)

/-- `(define f (lambda (param ...) e))` -/
def spelledOut (i j k : Identity) (f : String) (params : List Value) (body : Value) : Value :=
  Keyword.define.form i [.symbol f, Keyword.lambda.form j [.list k params, body]]

/-- One or more expressions as a single one. -/
def sequenced (id : Identity) : List Value → Value
  | [expr] => expr
  | body => Keyword.begin.form id body

theorem tree_single (id next : Identity) (body : List Value) :
    (Form.single body next).1.tree = (sequenced id body).tree := by
  cases body with
  | nil => rfl
  | cons b rest =>
      cases rest with
      | nil => rfl
      | cons c rest => exact (Value.tree_list _ _).trans (Value.tree_list _ _).symm

/-! ## When two definitions do the same -/

/-- The kinds of error. -/
inductive Error.Kind where
  | read
  | eval
  | type
  | unbound
  | arity
  deriving DecidableEq, Repr

/-- What kind an error is of. -/
def Error.kind : Error → Error.Kind
  | read _ => .read
  | eval .. => .eval
  | type .. => .type
  | unbound _ => .unbound
  | arity .. => .arity

theorem Error.kind_within (expr : Value) (e : Error) : (e.within expr).kind = e.kind := by
  rcases e with _ | ⟨_, _ | _⟩ | ⟨_, _ | _⟩ | _ | _
  case eval.none | type.none =>
      rw [Error.within]
      split <;> rfl
  all_goals rfl

/-- Procedures with the same parameters and body, made at the same place. -/
inductive Value.SameProcedure : Value → Value → Prop
  | closure {id id' params body body' env} : body.tree = body'.tree →
      SameProcedure (.closure id params body env) (.closure id' params body' env)
  | lambda {id id' params params' body body'} : params.map tree = params'.map tree →
      body.tree = body'.tree →
      SameProcedure (.lambda id params body) (.lambda id' params' body')

variable {σ ρ : Type}

/-- Two runs fail with errors of one kind and define nothing, or define `f` at one
place as procedures that are the same, and nothing else. -/
inductive SameDefinition (S : Scoping σ ρ) (before : σ) (env : ρ) (f : String) :
    Except Error Value × Memory σ → Except Error Value × Memory σ → Prop
  | failed {e e' m m'} : e.kind = e'.kind → m.bound = before → m'.bound = before →
      SameDefinition S before env f (.error e, m) (.error e', m')
  | defined {g g' m m'} : g.SameProcedure g' → m.bound = S.define before env f g →
      m'.bound = S.define before env f g' →
      SameDefinition S before env f (.ok .unspecified, m) (.ok .unspecified, m')

/-! ## The checks of parameters -/

theorem Value.name?_tree (v : Value) : v.tree.name? = v.name? := by
  cases v <;> rfl

theorem Value.name?_of_not_isSymbol {v : Value} (h : v.isSymbol = false) : v.name? = none := by
  cases v with
  | symbol => cases h
  | _ => rfl

theorem Value.isSymbol_tree (v : Value) : v.tree.isSymbol = v.isSymbol := by
  cases v <;> rfl

namespace Form

/-- The names that parameters are, distinct ones. -/
def distinctNames (params : List Value) : Except Error (List String) := do
  parameterNames (← distinct params)

theorem symbols_tree (params : List Value) : symbols (params.map Value.tree) = symbols params := by
  rw [symbols, List.filterMap_map]
  exact congrArg (List.filterMap · params) (funext Value.name?_tree)

/-- Which names are among parameters does not depend on identities. -/
theorem symbols_congr {params params' : List Value}
    (h : params.map Value.tree = params'.map Value.tree) : symbols params = symbols params' := by
  rw [← symbols_tree, h, symbols_tree]

theorem forall_isSymbol_congr {params params' : List Value}
    (h : params.map Value.tree = params'.map Value.tree) :
    (∀ p ∈ params, p.isSymbol = true) ↔ ∀ p ∈ params', p.isSymbol = true := by
  have htree : ∀ params : List Value, (∀ p ∈ params.map Value.tree, p.isSymbol = true) ↔
      ∀ p ∈ params, p.isSymbol = true := by
    intro params
    rw [List.forall_mem_map]
    exact forall₂_congr fun p _ => by rw [Value.isSymbol_tree]
  rw [← htree params, h, htree]

/-- A symbol that is repeated is an error. -/
theorem distinct_of_not_nodup {params : List Value} (h : ¬(symbols params).Nodup) :
    ∃ e, distinct params = .error e ∧ e.kind = .eval := by
  unfold distinct
  cases hrep : repeated? [] params with
  | none => exact absurd ((repeated?_eq_none_iff params []).1 hrep).1 h
  | some name => exact ⟨_, rfl, rfl⟩

theorem parameterNames_of_not_isSymbol {params : List Value}
    (h : ¬∀ p ∈ params, p.isSymbol = true) :
    ∃ e, parameterNames params = .error e ∧ e.kind = .type := by
  unfold parameterNames
  induction params with
  | nil => exact absurd (fun _ hp => absurd hp List.not_mem_nil) h
  | cons p params ih =>
      rw [List.mapM_cons]
      cases p with
      | symbol x =>
          obtain ⟨e, he, hkind⟩ := ih fun hall => h (List.forall_mem_cons.2 ⟨rfl, hall⟩)
          rw [he]
          exact ⟨e, rfl, hkind⟩
      | _ => exact ⟨_, rfl, rfl⟩

theorem exists_eq_map_symbol {params : List Value} (h : ∀ p ∈ params, p.isSymbol = true) :
    ∃ names : List String, params = names.map .symbol := by
  induction params with
  | nil => exact ⟨[], rfl⟩
  | cons p params ih =>
      obtain ⟨hp, hparams⟩ := List.forall_mem_cons.1 h
      obtain ⟨names, rfl⟩ := ih hparams
      cases p with
      | symbol x => exact ⟨x :: names, rfl⟩
      | _ => cases hp

theorem distinctNames_of_not_nodup {params : List Value} (h : ¬(symbols params).Nodup) :
    ∃ e, distinctNames params = .error e ∧ e.kind = .eval := by
  obtain ⟨e, he, hkind⟩ := distinct_of_not_nodup h
  exact ⟨e, by rw [distinctNames, he]; rfl, hkind⟩

theorem distinctNames_of_nodup {params : List Value} (h : (symbols params).Nodup) :
    distinctNames params = parameterNames params := by
  rw [distinctNames, distinct_of_nodup h]
  rfl

theorem parse_shorthand (j : Identity) (f : String) (params : List Value) (b : Value)
    (body : List Value) :
    parse .define (.list j (.symbol f :: params) :: b :: body) =
      (distinctNames params).map fun names => .defineProcedure f names (b :: body) := by
  rw [parse, signature, distinctNames]
  cases distinct params with
  | error e => rfl
  | ok items =>
      show (parameterNames items >>= fun names => pure (f, names)).map _ =
        (parameterNames items).map _
      cases parameterNames items <;> rfl

end Form

/-! ## Running the two forms -/

namespace Scoping

variable (S : Scoping σ ρ)

/-- Makes a procedure and defines a name as it. -/
def install (env : ρ) (f : String) (params : List Value) (body : Value) : Eval σ Value := do
  let g ← S.procedure env params body
  Eval.rebind fun bound => S.define bound env f g
  return .unspecified

theorem runFrom_install {env : ρ} {params : List Value} {body : Value} {make : Identity → Value}
    (h : S.close env params body = .ok make) (f : String) (m : Memory σ) :
    Eval.runFrom m (S.install env f params body) =
      (.ok .unspecified, ⟨m.supply + 1, S.define m.bound env f (make m.supply)⟩) := by
  rw [install, procedure, h]
  rfl

theorem runFrom_install_error {env : ρ} {params : List Value} {body : Value} {e : Error}
    (h : S.close env params body = .error e) (f : String) (m : Memory σ) :
    Eval.runFrom m (S.install env f params body) = (.error e, m) := by
  rw [install, procedure, h]
  rfl

theorem eval_shorthand (limit left : Nat) (env : ρ) (i j : Identity) (f : String)
    (params : List Value) (b : Value) (body : List Value) :
    S.eval limit (left + 1) env (shorthand i j f params (b :: body)) = (do
      let names ← Eval.ofExcept (Form.distinctNames params)
      S.install env f (names.map .symbol) (← Eval.supply (Form.single (b :: body)))) := by
  rw [shorthand, eval_form, Form.parse_shorthand]
  cases Form.distinctNames params <;> rfl

theorem eval_spelledOut_succ (limit left : Nat) (env : ρ) (i j k : Identity) (f : String)
    (params : List Value) (body : Value) :
    S.eval limit (left + 1) env (spelledOut i j k f params body) = (do
      let g ← S.eval limit left env (Keyword.lambda.form j [.list k params, body])
      Eval.rebind fun bound => S.define bound env f g
      return .unspecified) := by
  rw [spelledOut, eval_form]
  rfl

theorem eval_spelledOut (limit left : Nat) (env : ρ) (i j k : Identity) (f : String)
    (params : List Value) (body : Value) :
    S.eval limit (left + 2) env (spelledOut i j k f params body) = (do
      let params ← Eval.ofExcept (Form.distinct params)
      S.install env f params body) := by
  have hlambda : S.eval limit (left + 1) env (Keyword.lambda.form j [.list k params, body]) =
      (do S.procedure env (← Eval.ofExcept (Form.distinct params)) body) := by
    rw [eval_form, Form.parse, Form.binders]
    cases Form.distinct params <;> rfl
  rw [eval_spelledOut_succ, hlambda]
  cases Form.distinct params <;> rfl

/-- The longer form takes two levels. -/
theorem eval_spelledOut_tooDeep (limit : Nat) {left : Nat} (hleft : left < 2) (env : ρ)
    (i j k : Identity) (f : String) (params : List Value) (body : Value) :
    S.eval limit left env (spelledOut i j k f params body) =
      throw (.eval (.tooDeep limit) none) := by
  cases left with
  | zero => rw [spelledOut, Keyword.form, eval_list_zero]
  | succ left =>
      obtain rfl : left = 0 := by omega
      rw [eval_spelledOut_succ, Keyword.form, eval_list_zero]
      rfl

end Scoping

/-! ## In an environment -/

theorem SameDefinition.within {S : Scoping σ ρ} {before : σ} {env : ρ} {f : String}
    {r r' : Except Error Value × Memory σ} (h : SameDefinition S before env f r r')
    (b b' : Value) : SameDefinition S before env f (r.1.mapError (Error.within b), r.2)
      (r'.1.mapError (Error.within b'), r'.2) := by
  cases h with
  | failed hkind hm hm' =>
      refine .failed ?_ hm hm'
      rw [Error.kind_within, Error.kind_within, hkind]
  | defined hg hm hm' => exact .defined hg hm hm'

namespace Lexical

/-- A call evaluates the body in a new frame, and an error gets the body for a
context. -/
theorem runFrom_call (eval : Environment → Value → Eval Heap Value) (m : Memory Heap)
    (id : Identity) {params : List String} {args : List Value}
    (hlen : params.length = args.length) (body : Value) (env : Environment) :
    Eval.runFrom m (Scoping.lexical.apply eval (.closure id params body env) args) =
      let extended := m.bound.extend env (frame params args)
      let run := Eval.runFrom ⟨m.supply, extended.2⟩ (eval extended.1 body)
      (run.1.mapError (Error.within body), run.2) := by
  have henter : Scoping.lexical.enter (.closure id params body env) args =
      (do
        let env ← Eval.update fun heap => heap.extend env (frame params args)
        return (env, body)) := by
    show enter (.closure id params body env) args = _
    rw [enter, if_neg (not_not.2 hlen)]
  rw [Scoping.apply_created _ _ _ (by simp), henter, bind_assoc, Eval.runFrom_bind]
  show Eval.runFrom ⟨m.supply, (m.bound.extend env (frame params args)).2⟩ (tryCatch
    (eval (m.bound.extend env (frame params args)).1 body) _) = _
  rw [Eval.runFrom_tryCatch]
  dsimp only
  rcases Eval.runFrom _ (eval _ body) with ⟨_ | _, _⟩ <;> rfl

/-- Wherever they stand, both forms do the same. -/
theorem sameDefinition (limit left : Nat) (m : Memory Heap) (env : Environment)
    (i j i' j' k' l : Identity) (f : String) (params : List Value) (b : Value)
    (body : List Value) :
    SameDefinition .lexical m.bound env f
      (Eval.runFrom m (Scoping.lexical.eval limit (left + 2) env
        (shorthand i j f params (b :: body))))
      (Eval.runFrom m (Scoping.lexical.eval limit (left + 2) env
        (spelledOut i' j' k' f params (sequenced l (b :: body))))) := by
  rw [Scoping.eval_shorthand, Scoping.eval_spelledOut]
  by_cases hnodup : (Form.symbols params).Nodup
  · rw [Form.distinctNames_of_nodup hnodup, Form.distinct_of_nodup hnodup]
    cases hnames : Form.parameterNames params with
    | ok names =>
        obtain rfl := Form.eq_of_parameterNames hnames
        have hclose : ∀ body, Scoping.lexical.close env (names.map .symbol) body =
            .ok fun id => .closure id names body env := by
          intro body
          show close env _ body = _
          rw [close, Form.parameterNames_symbols]
          rfl
        show SameDefinition .lexical m.bound env f
          (Eval.runFrom ⟨(Form.single (b :: body) m.supply).2, m.bound⟩
            (Scoping.lexical.install env f _ (Form.single (b :: body) m.supply).1))
          (Eval.runFrom m (Scoping.lexical.install env f _ _))
        rw [Scoping.runFrom_install _ (hclose _), Scoping.runFrom_install _ (hclose _)]
        exact .defined (.closure (tree_single l _ _)) rfl rfl
    | error e =>
        have hclose : Scoping.lexical.close env params (sequenced l (b :: body)) = .error e := by
          show close env params _ = _
          rw [close, hnames]
          rfl
        show SameDefinition .lexical m.bound env f (.error e, m)
          (Eval.runFrom m (Scoping.lexical.install env f params _))
        rw [Scoping.runFrom_install_error _ hclose]
        exact .failed rfl rfl rfl
  · obtain ⟨e, he, hkind⟩ := Form.distinctNames_of_not_nodup hnodup
    obtain ⟨e', he', hkind'⟩ := Form.distinct_of_not_nodup hnodup
    rw [he, he']
    exact .failed (hkind.trans hkind'.symm) rfl rfl

/-- What a call of a procedure of one parameter comes to. -/
def call (limit left : Nat) (m : Memory Heap) (id : Identity) (env : Environment) (x : String)
    (v body : Value) : Except Error Value × Memory Heap :=
  Eval.runFrom m
    (Scoping.lexical.apply (Scoping.lexical.eval limit left) (.closure id [x] body env) [v])

theorem sameDefinition_call (limit left : Nat) (m : Memory Heap) (id : Identity)
    (env : Environment) (x : String) (v : Value) (i j i' j' k' l : Identity) (f : String)
    (params : List Value) (b : Value) (body : List Value) :
    SameDefinition .lexical (m.bound.extend env (frame [x] [v])).2
      (m.bound.extend env (frame [x] [v])).1 f
      (call limit (left + 2) m id env x v (shorthand i j f params (b :: body)))
      (call limit (left + 2) m id env x v
        (spelledOut i' j' k' f params (sequenced l (b :: body)))) := by
  have hlen : [x].length = [v].length := rfl
  rw [call, call, runFrom_call _ _ _ hlen, runFrom_call _ _ _ hlen]
  exact (sameDefinition limit left ⟨m.supply, (m.bound.extend env (frame [x] [v])).2⟩ _
    i j i' j' k' l f params b body).within _ _

theorem exists_of_not_tooDeep {limit left : Nat} {m : Memory Heap} {id : Identity}
    {env : Environment} {x : String} {v : Value} {i j k : Identity} {f : String}
    {params : List Value} {body : Value}
    (h : ∀ e, (call limit left m id env x v (spelledOut i j k f params body)).1 = .error e →
      ¬e.IsTooDeep) : ∃ rest, left = rest + 2 := by
  refine Nat.exists_eq_add_of_le' (Nat.le_of_not_lt fun hleft => ?_)
  have hlen : [x].length = [v].length := rfl
  rw [call, runFrom_call _ _ _ hlen] at h
  dsimp only at h
  rw [Scoping.eval_spelledOut_tooDeep _ limit hleft] at h
  exact h _ rfl (.within (.intro limit none) _)

end Lexical

end TwinScheme
