import TwinScheme.Proofs.Evaluator.DepthLimit
import TwinScheme.Proofs.Evaluator.Forms

/-!
# Clauses can be put off

The clauses of a `cond` are looked at one after another, and a clause is done
with once its test has come out false. So the clauses from some point on may be
put into a `cond` of their own, in the body of an `else`: whether they are
reached at all, and with what memory, is settled by the clauses before them.

`Declines` says that clauses are gone past: each is well formed, its test is
evaluated once and comes out false. Clauses either decline, and then whatever
follows them goes on from the memory they left, or they do not, and then nothing
that follows them matters, not even its shape. Every equation here comes from
these two.

The clauses that were put off are a level deeper. That makes no difference to a
run that is not short of levels, which is what the law of the limit says.
-/

namespace TwinScheme

variable {σ ρ : Type}

/-- The clause that holds without a test. -/
def Form.otherwise (id : Identity) (body : List Value) : Value :=
  .list id (.symbol "else" :: body)

/-- Clauses that a run goes past: each has a test, no `else`, that is evaluated
once and comes out false. -/
inductive Declines (ev : Value → Eval σ Value) : List Value → Memory σ → Memory σ → Prop
  | nil (m : Memory σ) : Declines ev [] m m
  | cons {clause test v : Value} {body rest : List Value} {m n k : Memory σ} :
      Form.clause clause = .ok (test, body) → Form.isElse test = false →
      Eval.runFrom m (ev test) = (.ok v, n) → v.isTruthy = false →
      Declines ev rest n k → Declines ev (clause :: rest) m k

namespace Scoping

variable {ev : Value → Eval σ Value}

/-! ## One clause -/

theorem evalClauses_refused {clause : Value} {e : Error} (h : Form.clause clause = .error e)
    (rest : List Value) : evalClauses ev (clause :: rest) = throw e := by
  rw [evalClauses, h]
  rfl

theorem evalClauses_otherwise {clause test : Value} {body : List Value}
    (h : Form.clause clause = .ok (test, body)) (helse : Form.isElse test = true)
    (rest : List Value) :
    evalClauses ev (clause :: rest) =
      if body.isEmpty then pure (.bool true) else evalSequence ev body := by
  rw [evalClauses, h]
  simp [Eval.ofExcept, helse, Value.isTruthy]

theorem evalClauses_tested {clause test : Value} {body : List Value}
    (h : Form.clause clause = .ok (test, body)) (helse : Form.isElse test = false)
    (rest : List Value) :
    evalClauses ev (clause :: rest) =
      (do
        let outcome ← ev test
        if outcome.isTruthy then
          if body.isEmpty then return outcome else evalSequence ev body
        else evalClauses ev rest) := by
  rw [evalClauses, h]
  simp [Eval.ofExcept, helse]

/-- An `else` with one expression in its body evaluates it. -/
theorem evalClauses_else (id : Identity) (e : Value) :
    evalClauses ev [Form.otherwise id [e]] = ev e := by
  have hclause : Form.clause (Form.otherwise id [e]) = .ok (.symbol "else", [e]) := rfl
  rw [evalClauses_otherwise hclause rfl []]
  rfl

/-! ## Clauses and what follows them -/

/-- What follows clauses that declined goes on from the memory they left. -/
theorem runFrom_evalClauses_of_declines {as : List Value} {m n : Memory σ}
    (h : Declines ev as m n) (bs : List Value) :
    Eval.runFrom m (evalClauses ev (as ++ bs)) = Eval.runFrom n (evalClauses ev bs) := by
  induction h with
  | nil => rfl
  | cons hclause helse htest hfalse _ ih =>
      rw [List.cons_append, evalClauses_tested hclause helse, Eval.runFrom_bind, htest]
      simp only [hfalse, Bool.false_eq_true, if_false]
      exact ih

/-- What follows clauses that do not decline is never looked at. -/
theorem runFrom_evalClauses_of_not_declines {as : List Value} {m : Memory σ}
    (h : ∀ n, ¬Declines ev as m n) (bs : List Value) :
    Eval.runFrom m (evalClauses ev (as ++ bs)) = Eval.runFrom m (evalClauses ev as) := by
  induction as generalizing m with
  | nil => exact absurd (.nil m) (h m)
  | cons clause rest ih =>
      rw [List.cons_append]
      cases hclause : Form.clause clause with
      | error e => rw [evalClauses_refused hclause, evalClauses_refused hclause]
      | ok parts =>
          obtain ⟨test, body⟩ := parts
          cases helse : Form.isElse test with
          | true => rw [evalClauses_otherwise hclause helse, evalClauses_otherwise hclause helse]
          | false =>
              rw [evalClauses_tested hclause helse, evalClauses_tested hclause helse,
                Eval.runFrom_bind, Eval.runFrom_bind]
              cases htest : Eval.runFrom m (ev test) with
              | mk r n =>
                  cases r with
                  | error e => rfl
                  | ok v =>
                      cases hv : v.isTruthy with
                      | true => simp only [hv, if_true]
                      | false =>
                          simp only [hv, Bool.false_eq_true, if_false]
                          -- the rest may not decline from here, or the whole would have
                          exact ih fun k hk => h k (.cons hclause helse htest hv hk)

/-! ## Whole forms -/

section

variable (S : Scoping σ ρ) (limit left : Nat) (env : ρ)

theorem eval_cond (id : Identity) (clauses : List Value) :
    S.eval limit (left + 1) env (Keyword.cond.form id clauses) =
      evalClauses (S.eval limit left env) clauses :=
  S.eval_form limit left env .cond id clauses

theorem eval_ite (id : Identity) (test yes no : Value) :
    S.eval limit (left + 1) env (Keyword.ite.form id [test, yes, no]) =
      (do
        if (← S.eval limit left env test).isTruthy then S.eval limit left env yes
        else S.eval limit left env no) :=
  S.eval_form limit left env .ite id [test, yes, no]

end

/-- Putting the last clauses off changes nothing, unless it takes the run too
deep. -/
theorem runFrom_cond_otherwise (S : Scoping σ ρ)
    (hleave : ∀ body e, e.IsTooDeep → (S.leave body e).IsTooDeep) {limit : Nat} {env : ρ}
    {as bs : List Value} {i j k l : Identity} {m : Memory σ}
    (hdeep : ∀ e, (Eval.runFrom m (S.evaluate limit env (Keyword.cond.form j
      (as ++ [Form.otherwise k [Keyword.cond.form l bs]])))).1 = .error e → ¬e.IsTooDeep) :
    Eval.runFrom m (S.evaluate limit env (Keyword.cond.form i (as ++ bs))) =
      Eval.runFrom m (S.evaluate limit env (Keyword.cond.form j
        (as ++ [Form.otherwise k [Keyword.cond.form l bs]]))) := by
  cases limit with
  | zero => rfl
  | succ left =>
      rw [evaluate, eval_cond] at hdeep ⊢
      rw [evaluate, eval_cond]
      by_cases hdeclines : ∃ n, Declines (S.eval (left + 1) left env) as m n
      · obtain ⟨n, hn⟩ := hdeclines
        rw [runFrom_evalClauses_of_declines hn, evalClauses_else] at hdeep
        rw [runFrom_evalClauses_of_declines hn bs, runFrom_evalClauses_of_declines hn,
          evalClauses_else]
        cases left with
        | zero =>
            -- without a level for the inner form there is nothing to compare
            rw [Keyword.form, eval_list_zero] at hdeep
            exact absurd (.intro 1 none) (hdeep _ rfl)
        | succ left =>
            rw [eval_cond] at hdeep ⊢
            have hsettles : Settles (evalClauses (S.eval (left + 2) left env) bs)
                (evalClauses (S.eval (left + 2) (left + 1) env) bs) :=
              evalClauses_settles (fun e => eval_settles hleave (Nat.le_succ left) env e) bs
            exact hsettles.runFrom_eq n hdeep
      · have hnot : ∀ n, ¬Declines (S.eval (left + 1) left env) as m n :=
          fun n hn => hdeclines ⟨n, hn⟩
        rw [runFrom_evalClauses_of_not_declines hnot, runFrom_evalClauses_of_not_declines hnot]

/-- An `if` is a `cond` of its test and an `else`. -/
theorem evaluate_ite_eq_cond (S : Scoping σ ρ) (limit : Nat) (env : ρ) {test : Value}
    (htest : test ≠ .symbol "else") (yes no : Value) (i j k l : Identity) :
    S.evaluate limit env (Keyword.ite.form i [test, yes, no]) =
      S.evaluate limit env
        (Keyword.cond.form j [.list k [test, yes], Form.otherwise l [no]]) := by
  cases limit with
  | zero => rfl
  | succ left =>
      have helse : Form.isElse test = false := by
        cases test with
        | symbol name => simpa [Form.isElse] using htest
        | _ => rfl
      have hclause : Form.clause (.list k [test, yes]) = .ok (test, [yes]) := rfl
      rw [evaluate, evaluate, eval_ite, eval_cond, evalClauses_tested hclause helse,
        evalClauses_else]
      rfl

/-- What it takes for the clauses of a `cond` to be independent of those that
follow them. -/
structure CondSplits (S : Scoping σ ρ) : Prop where
  /-- At any point the rest of the clauses may be put off, if that does not take the
  run too deep. -/
  split : ∀ (limit : Nat) (env : ρ) (as bs : List Value) (i j k l : Identity) (m : Memory σ),
    let whole := Keyword.cond.form i (as ++ bs)
    let halves := Keyword.cond.form j (as ++ [Form.otherwise k [Keyword.cond.form l bs]])
    (∀ e, (Eval.runFrom m (S.evaluate limit env halves)).1 = .error e → ¬e.IsTooDeep) →
    Eval.runFrom m (S.evaluate limit env whole) = Eval.runFrom m (S.evaluate limit env halves)
  /-- Clauses whose tests have all come out false, each of them evaluated once, are
  done with. -/
  passed : ∀ (left : Nat) (env : ρ) (as bs : List Value) (i j : Identity) (m n : Memory σ),
    Declines (S.eval (left + 1) left env) as m n →
    Eval.runFrom m (S.evaluate (left + 1) env (Keyword.cond.form i (as ++ bs))) =
      Eval.runFrom n (S.evaluate (left + 1) env (Keyword.cond.form j bs))
  /-- Any others decide alone, whatever stands behind them. -/
  decided : ∀ (left : Nat) (env : ρ) (as bs : List Value) (i j : Identity) (m : Memory σ),
    (∀ n, ¬Declines (S.eval (left + 1) left env) as m n) →
    Eval.runFrom m (S.evaluate (left + 1) env (Keyword.cond.form i (as ++ bs))) =
      Eval.runFrom m (S.evaluate (left + 1) env (Keyword.cond.form j as))
  /-- With one test the form is an `if`. -/
  branch : ∀ (limit : Nat) (env : ρ) (test yes no : Value) (i j k l : Identity) (m : Memory σ),
    test ≠ .symbol "else" →
    Eval.runFrom m (S.evaluate limit env (Keyword.ite.form i [test, yes, no])) =
      Eval.runFrom m (S.evaluate limit env
        (Keyword.cond.form j [.list k [test, yes], Form.otherwise l [no]]))

theorem condSplits_of_leave (S : Scoping σ ρ)
    (hleave : ∀ body e, e.IsTooDeep → (S.leave body e).IsTooDeep) : S.CondSplits where
  split _ _ _ _ _ _ _ _ _ hdeep := S.runFrom_cond_otherwise hleave hdeep
  passed left env as bs i j m n h := by
    rw [evaluate, evaluate, eval_cond, eval_cond]
    exact runFrom_evalClauses_of_declines h bs
  decided left env as bs i j m h := by
    rw [evaluate, evaluate, eval_cond, eval_cond]
    exact runFrom_evalClauses_of_not_declines h bs
  branch limit env _ yes no i j k l _ htest := by
    rw [S.evaluate_ite_eq_cond limit env htest yes no i j k l]

/-- Under both ways of binding names a `cond` may be split anywhere, whatever its
clauses are like, and an `if` is a `cond` with one test. -/
theorem cond_splits : Scoping.lexical.CondSplits ∧ Scoping.textual.CondSplits :=
  ⟨condSplits_of_leave _ fun body _ h => h.within body, condSplits_of_leave _ fun _ _ h => h⟩

/-- `(cond (#f 1) (#t 2))` with its second clause put off, which two levels are
enough for. -/
theorem cond_splits_declined :
    let as : List Value := [.list 0 [.bool false, .int 1]]
    let bs : List Value := [.list 1 [.bool true, .int 2]]
    let halves := Keyword.cond.form 3 (as ++ [Form.otherwise 4 [Keyword.cond.form 5 bs]])
    let m : Memory Bindings := ⟨6, ∅⟩
    Declines (Scoping.textual.eval 2 1 ()) as m m ∧
      (∀ e, (Eval.runFrom m (Scoping.textual.evaluate 2 () halves)).1 = .error e →
        ¬e.IsTooDeep) ∧
      Eval.runFrom m (Scoping.textual.evaluate 2 () (Keyword.cond.form 2 (as ++ bs))) =
        Eval.runFrom m (Scoping.textual.evaluate 2 () halves) ∧
      Eval.runFrom m (Scoping.textual.evaluate 2 () (Keyword.cond.form 2 (as ++ bs))) =
        Eval.runFrom m (Scoping.textual.evaluate 2 () (Keyword.cond.form 2 bs)) := by
  intro as bs halves m
  have hdeclines : Declines (Scoping.textual.eval 2 1 ()) as m m :=
    .cons rfl rfl rfl rfl (.nil m)
  have hdeep : ∀ e, (Eval.runFrom m (Scoping.textual.evaluate 2 () halves)).1 = .error e →
      ¬e.IsTooDeep := by
    intro e he
    have hresult : (Eval.runFrom m (Scoping.textual.evaluate 2 () halves)).1 = .ok (.int 2) := rfl
    rw [hresult] at he
    cases he
  exact ⟨hdeclines, hdeep, cond_splits.2.split 2 () as bs 2 3 4 5 m hdeep,
    cond_splits.2.passed 1 () as bs 2 2 m m hdeclines⟩

end Scoping

end TwinScheme
