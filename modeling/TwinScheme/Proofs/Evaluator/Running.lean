import TwinScheme.Evaluator.Eval

/-!
# What a run of a computation comes to

`Eval` is a stack of two monad transformers, and no proof about evaluation
should have to know that. The equations below say what each operation does to
a memory: where the result goes, and which of the two parts of the memory
moved. Everything said later about runs is said through them.
-/

namespace TwinScheme.Eval

variable {σ α β : Type}

theorem runFrom_pure (m : Memory σ) (a : α) : runFrom m (pure a) = (.ok a, m) := rfl

theorem runFrom_throw (m : Memory σ) (e : Error) :
    runFrom m (throw e : Eval σ α) = (.error e, m) := rfl

/-- A failure ends a sequence where it stands, memory included. -/
theorem runFrom_bind (m : Memory σ) (x : Eval σ α) (f : α → Eval σ β) :
    runFrom m (x >>= f) =
      match runFrom m x with
      | (.ok a, n) => runFrom n (f a)
      | (.error e, n) => (.error e, n) := by
  have hrun : runFrom m (x >>= f) =
      ExceptT.bindCont f (runFrom m x).1 (runFrom m x).2 := rfl
  rw [hrun]
  rcases runFrom m x with ⟨_ | _, n⟩ <;> rfl

/-- A handler starts from the memory the failure left. -/
theorem runFrom_tryCatch (m : Memory σ) (x : Eval σ α) (f : Error → Eval σ α) :
    runFrom m (tryCatch x f) =
      match runFrom m x with
      | (.ok a, n) => (.ok a, n)
      | (.error e, n) => runFrom n (f e) := by
  rcases h : runFrom m x with ⟨_ | _, n⟩ <;>
  · have hx : x m = (_, n) := h
    show (ExceptT.tryCatch x f : StateM (Memory σ) _) m = _
    simp only [ExceptT.tryCatch, ExceptT.mk, bind, StateT.bind, hx]
    rfl

/-- A handler that throws what it caught handles nothing. -/
theorem tryCatch_throw (x : Eval σ α) : (tryCatch x fun e => throw e) = x := by
  funext m
  show runFrom m _ = runFrom m x
  rw [runFrom_tryCatch]
  rcases runFrom m x with ⟨_ | _, n⟩ <;> rfl

theorem runFrom_bound (m : Memory σ) :
    runFrom m (bound : Eval σ σ) = (.ok m.bound, m) := rfl

theorem runFrom_rebind (m : Memory σ) (change : σ → σ) :
    runFrom m (rebind change) = (.ok (), ⟨m.supply, change m.bound⟩) := rfl

theorem runFrom_supply (m : Memory σ) (x : Fresh α) :
    runFrom m (supply x) = (.ok (x m.supply).1, ⟨(x m.supply).2, m.bound⟩) := rfl

theorem runFrom_list (m : Memory σ) (items : List Value) :
    runFrom m (list items) =
      (.ok (.list m.supply items), ⟨m.supply + 1, m.bound⟩) := rfl

end TwinScheme.Eval

namespace TwinScheme.Scoping

variable {σ ρ : Type} (S : Scoping σ ρ) (limit : Nat)

theorem runFrom_resolve (m : Memory σ) (env : ρ) (name : String) :
    Eval.runFrom m (S.resolve env name) =
      match S.find? m.bound env name with
      | some v => (.ok v, m)
      | none => (.error (.unbound name), m) := by
  rw [resolve, Eval.runFrom_bind, Eval.runFrom_bound]
  dsimp only
  cases S.find? m.bound env name <;> rfl

/-! ## One level of evaluation -/

/-- A list that a keyword heads is the special form. -/
theorem evalList_form (eval : ρ → Value → Eval σ Value) (env : ρ) {head : Value} {k : Keyword}
    (h : Form.keyword? head = some k) (operands : List Value) :
    S.evalList eval env (head :: operands) =
      (do S.evalForm (eval env) env (← Eval.ofExcept (Form.parse k operands))) := by
  rw [evalList, h]

theorem evalList_combination (eval : ρ → Value → Eval σ Value) (env : ρ) {head : Value}
    (h : Form.keyword? head = none) (operands : List Value) :
    S.evalList eval env (head :: operands) =
      (do
        let f ← eval env head
        let args ← operands.mapM (eval env)
        S.apply eval f args) := by
  rw [evalList, h]

theorem eval_symbol_zero (env : ρ) (name : String) :
    S.eval limit 0 env (.symbol name) = throw (.eval (.tooDeep limit) none) := by
  rw [eval]

theorem eval_list_zero (env : ρ) (id : Identity) (items : List Value) :
    S.eval limit 0 env (.list id items) = throw (.eval (.tooDeep limit) none) := by
  rw [eval]

theorem eval_symbol_succ (left : Nat) (env : ρ) (name : String) :
    S.eval limit (left + 1) env (.symbol name) = S.resolve env name := by
  rw [eval]

theorem eval_list_succ (left : Nat) (env : ρ) (id : Identity) (items : List Value) :
    S.eval limit (left + 1) env (.list id items) =
      S.evalList (S.eval limit left) env items := by
  rw [eval]

/-- A combination whose operator and operands have values is a call. -/
theorem runFrom_combination (left : Nat) (env : ρ) (id : Identity) {head f : Value}
    {operands args : List Value} {m n k : Memory σ} (h : Form.keyword? head = none)
    (hf : Eval.runFrom m (S.eval limit left env head) = (.ok f, n))
    (hargs : Eval.runFrom n (operands.mapM (S.eval limit left env)) = (.ok args, k)) :
    Eval.runFrom m (S.eval limit (left + 1) env (.list id (head :: operands))) =
      Eval.runFrom k (S.apply (S.eval limit left) f args) := by
  rw [eval_list_succ, evalList_combination _ _ _ h, Eval.runFrom_bind, hf]
  dsimp only
  rw [Eval.runFrom_bind, hargs]

theorem eval_of_isSelfEvaluating (left : Nat) (env : ρ) {v : Value}
    (h : v.isSelfEvaluating = true) : S.eval limit left env v = pure v := by
  cases v with
  | symbol | list => cases h
  | _ => rw [eval] <;> simp

end TwinScheme.Scoping
