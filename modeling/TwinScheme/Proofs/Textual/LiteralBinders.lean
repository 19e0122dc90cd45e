import TwinScheme.Proofs.Textual.Simultaneous
import TwinScheme.Proofs.Value.Equality

/-!
# Parameters that are no symbols

A call replaces its parameter in the whole body, inner parameters of the same
name included, and so an inner procedure comes to have an expression for a value
as its parameter. Calling it replaces what is equal to that expression.

Nothing is lost by that as long as the expression is equal to itself and to
nothing that was in the body before: the places it stands at are then those at
which the name stood, and replacing through the expression is replacing the
name. That nothing else becomes equal to it on the way is the point to check. A
list made on the way is no quotation, as the one it is made from was none.

The value that is put in decides whether the expression is equal to itself. A
float that is not a number is not, nor is the unspecified value, nor a list with
either in it. A parameter that was replaced by such an expression is not
found any more, and the argument of the inner call is dropped.
-/

namespace TwinScheme

namespace Textual

variable {x : String} {l l' r : Value}

/-! ## Which trees are equal to an expression for a value -/

theorem IsLiteral.equal_list (hl : IsLiteral l) (id : Identity) {items : List Value}
    (hq : isQuotation items = false) : (Value.list id items).equal l = false := by
  cases hl with
  | self hself =>
      cases l with
      | list => cases hself
      | _ => rfl
  | quotation j v =>
      cases items with
      | nil => rfl
      | cons head rest =>
          cases head with
          | symbol name =>
              have hname : (Value.symbol name).equal (.symbol Keyword.quote.name) = false := hq
              rw [Keyword.form, Value.equal, Value.equalAll, hname, Bool.false_and]
          | _ => rfl

/-- The expression for a value is equal to itself if the value is. -/
theorem equal_literal (v : Value) (i j : Identity) :
    (literal v i).1.equal (literal v j).1 = v.equal v := by
  cases h : v.isSelfEvaluating with
  | true =>
      rw [literal_of_isSelfEvaluating h]
      rfl
  | false =>
      rw [literal_of_not_isSelfEvaluating h, literal_of_not_isSelfEvaluating h, Keyword.form,
        Keyword.form, Value.equal, Value.equalAll, Value.equalAll, Value.equalAll, Bool.and_true]
      exact Bool.true_and _

/-! ## Replacing through an expression for a value -/

mutual

theorem replace_replace (hl : IsLiteral l) (hl' : IsLiteral l') (hself : l.equal l' = true) :
    ∀ t : Value, (∀ s ∈ t.parts, s.equal l' = false) →
      (replace (.symbol x) l t).Ensures fun s => ∀ r, (replace l' r s).Ensures fun u =>
        u.tree = (substitute (only x r) t).tree
  | .symbol y, habsent => by
      by_cases h : y = x
      · subst h
        rw [replace_name]
        refine .pure fun r => ?_
        rw [replace_of_equal hself, substitute_symbol, only, if_pos rfl]
        exact .pure rfl
      · rw [replace_of_ne (by simpa using h) rfl]
        refine .pure fun r => ?_
        rw [replace_of_not_isList l' r rfl, habsent _ (Value.mem_parts_self _),
          substitute_symbol, only, if_neg h]
        exact .pure rfl
  | .list id items, habsent => by
      cases hq : isQuotation items with
      | true =>
          rw [replace_of_isQuotation rfl hq]
          refine .pure fun r => ?_
          rw [replace_of_isQuotation (habsent _ (Value.mem_parts_self _)) hq,
            substitute_quotation id hq]
          exact .pure rfl
      | false =>
          rw [replace_list id hq]
          have hitems := replaceAll_replaceAll hl hl' hself items
            fun s hs => habsent s (Value.mem_parts_item hs)
          refine ((replaceAll_tree items).and hitems).bind fun made hmade => .list fun i r => ?_
          -- No list becomes a quotation, so none becomes equal to `l'`.
          have hq' : isQuotation made = false := by
            rw [← isQuotation_tree, hmade.1, isQuotation_tree, substituteAll_eq_map]
            exact (hl.only x).isQuotation_map hq
          rw [replace_items (hl'.equal_list i hq') hq', substitute_list id hq]
          refine (hmade.2 r).bind fun us hus => .list fun j => ?_
          rw [Value.tree_list, Value.tree_list, hus]
  | .int _, habsent | .float _, habsent | .bool _, habsent | .primitive _, habsent
  | .closure .., habsent | .lambda .., habsent | .unspecified, habsent => by
      refine .pure fun r => ?_
      rw [replace_of_not_isList l' r rfl, habsent _ (Value.mem_parts_self _)]
      exact .pure rfl

theorem replaceAll_replaceAll (hl : IsLiteral l) (hl' : IsLiteral l')
    (hself : l.equal l' = true) : ∀ ts : List Value,
    (∀ s ∈ Value.partsAll ts, s.equal l' = false) →
      (replaceAll (.symbol x) l ts).Ensures fun ss => ∀ r,
        (replaceAll l' r ss).Ensures fun us =>
          us.map Value.tree = (ts.map (substitute (only x r))).map Value.tree
  | [], _ => .pure fun _ => .pure rfl
  | t :: ts, habsent => by
      rw [replaceAll]
      have ht := replace_replace hl hl' hself t
        fun s hs => habsent s (List.mem_append_left _ hs)
      have hts := replaceAll_replaceAll hl hl' hself ts
        fun s hs => habsent s (List.mem_append_right _ hs)
      refine ht.bind fun s hs => hts.bind fun ss hss => .pure fun r => ?_
      rw [replaceAll]
      refine (hs r).bind fun u hu => (hss r).bind fun us hus => .pure ?_
      rw [List.map_cons, List.map_cons, List.map_cons, hu, hus]

end

/-- Replacing a symbol by the expression for a value, and then that expression, is
replacing the symbol, if the expression is equal to itself and to nothing that
stands in the tree. So a call of a procedure whose parameter became such an
expression puts its argument where the name of the parameter stood, and these are
all places but in quotations. -/
theorem replace_literal_replace {v t : Value} {i j : Identity}
    (hself : (literal v i).1.equal (literal v j).1 = true)
    (habsent : ∀ s ∈ t.parts, s.equal (literal v j).1 = false) :
    (∀ (r : Value) (next next' : Identity),
      ((replace (.symbol x) (literal v i).1 t >>= replace (literal v j).1 r) next).1.tree =
        (replace (.symbol x) r t next').1.tree) ∧
    (∀ (w : Value) (next next' : Identity),
      ((replace (.symbol x) (literal v i).1 t >>= instantiate [(literal v j).1] [w]) next).1.tree =
        (instantiate [.symbol x] [w] t next').1.tree) ∧
    ∀ (r : Value) (next : Identity),
      ((replace (.symbol x) (literal v i).1 t >>= replace (literal v j).1 r) next).1.tree =
        (substitute (only x r) t).tree := by
  have hthrough := replace_replace (x := x) (isLiteral_literal v i) (isLiteral_literal v j)
    hself t habsent
  have hplaces : ∀ r, (replace (.symbol x) (literal v i).1 t >>=
      replace (literal v j).1 r).Ensures fun u => u.tree = (substitute (only x r) t).tree :=
    fun r => hthrough.bind fun s hs => hs r
  refine ⟨?_, ?_, fun r next => (hplaces r next).1⟩
  · intro r next next'
    rw [(hplaces r next).1, (replace_tree t next').1]
  · intro w next next'
    have hboth : (replace (.symbol x) (literal v i).1 t >>=
        instantiate [(literal v j).1] [w]).Ensures fun u =>
          u.tree = (substitute (only x (literal w 0).1) t).tree := by
      refine hthrough.bind fun s hs => ?_
      rw [instantiate_one]
      refine (literal_tree w).bind fun a ha => (hs a).imp fun u hu => ?_
      rw [hu]
      exact tree_substitute_congr rfl (map_tree_only (ha.2 0))
    have hname := (instantiate_tree [(x, w)] t next').1
    rw [assigned_singleton] at hname
    exact (hboth next).1.trans hname.symm

/-- `(lambda (x) (cons x (quote (x))))` -/
def consing : Value :=
  .list 4 [.symbol "lambda", .list 0 [.symbol "x"],
    .list 3 [.symbol "cons", .symbol "x", .list 2 [.symbol "quote", .list 1 [.symbol "x"]]]]

/-- Through the expression for the very symbol that is replaced. -/
theorem consing_replace_literal_replace :
    (literal (.symbol "x") 5).1.equal (literal (.symbol "x") 6).1 = true ∧
    (∀ s ∈ consing.parts, s.equal (literal (.symbol "x") 6).1 = false) ∧
    ((replace (.symbol "x") (literal (.symbol "x") 5).1 consing >>=
      replace (literal (.symbol "x") 6).1 (.int 7)) 8).1.tree =
      (replace (.symbol "x") (.int 7) consing 9).1.tree := by
  have hself : (literal (.symbol "x") 5).1.equal (literal (.symbol "x") 6).1 = true := by decide
  have habsent : ∀ s ∈ consing.parts, s.equal (literal (.symbol "x") 6).1 = false := by decide
  exact ⟨hself, habsent, (replace_literal_replace hself habsent).1 (.int 7) 8 9⟩

/-! ## Calls of an inner procedure of the same parameter -/

/-- `((lambda (p) b) e)` -/
def redex (i j k : Identity) (param body operand : Value) : Value :=
  .list i [Keyword.lambda.form j [.list k [param], body], operand]

theorem runFrom_literal {σ ρ : Type} (S : Scoping σ ρ) (limit left : Nat) (env : ρ)
    (m : Memory σ) (v : Value) (i : Identity) :
    Eval.runFrom m (S.eval limit (left + 1) env (literal v i).1) = (.ok v, m) := by
  cases h : v.isSelfEvaluating with
  | true =>
      rw [literal_of_isSelfEvaluating h]
      show Eval.runFrom m (S.eval limit (left + 1) env v) = _
      rw [Scoping.eval_of_isSelfEvaluating S limit _ _ h]
      rfl
  | false =>
      rw [literal_of_not_isSelfEvaluating h, Scoping.eval_form]
      rfl

theorem distinct_singleton (v : Value) : Form.distinct [v] = .ok [v] := by
  cases v <;> rfl

/-- A procedure of one parameter, a symbol or not, is called by replacing the
parameter and evaluating what results. -/
theorem runFrom_redex (limit left : Nat) (m : Memory Bindings) (i j k n : Identity)
    (param body v : Value) :
    Eval.runFrom m (Scoping.textual.eval limit (left + 2) ()
        (redex i j k param body (literal v n).1)) =
      Eval.runFrom ⟨m.supply + 1, m.bound⟩ (do
        Scoping.textual.eval limit (left + 1) ()
          (← Eval.supply (instantiate [param] [v] body))) := by
  have hf : Eval.runFrom m (Scoping.textual.eval limit (left + 1) ()
      (Keyword.lambda.form j [.list k [param], body])) =
        (.ok (.lambda m.supply [param] body), ⟨m.supply + 1, m.bound⟩) := by
    rw [Scoping.eval_form, Form.parse, Form.binders, distinct_singleton]
    rfl
  have hargs : Eval.runFrom ⟨m.supply + 1, m.bound⟩
      ([(literal v n).1].mapM (Scoping.textual.eval limit (left + 1) ())) =
        (.ok [v], ⟨m.supply + 1, m.bound⟩) := by
    rw [List.mapM_cons, Eval.runFrom_bind, runFrom_literal]
    rfl
  have hlen : [param].length = [v].length := rfl
  rw [redex, Scoping.runFrom_combination _ _ _ _ _ rfl hf hargs, runFrom_call _ _ _ hlen]

/-- The parameter of the inner procedure is replaced with the rest. -/
theorem replace_redex (hlambda : x ≠ Keyword.lambda.name) (hquote : x ≠ Keyword.quote.name)
    {w : Value} (hw : IsLiteral w) (i j k next : Identity) :
    replace (.symbol x) l (redex i j k (.symbol x) (.symbol x) w) next =
      (redex (next + 2) (next + 1) next l l w, next + 3) := by
  have hparams : replace (.symbol x) l (.list k [.symbol x]) = Fresh.list [l] := by
    have hq : isQuotation [.symbol x] = false := beq_eq_false_iff_ne.2 hquote
    rw [replace_list k hq, replaceAll, replace_name, replaceAll]
    rfl
  have hhead : replace (.symbol x) l (.symbol Keyword.lambda.name) =
      pure (.symbol Keyword.lambda.name) :=
    replace_of_ne (by simpa using hlambda.symm) rfl
  have hproc : replace (.symbol x) l (Keyword.lambda.form j [.list k [.symbol x], .symbol x]) =
      (do Fresh.list [.symbol Keyword.lambda.name, ← Fresh.list [l], l]) := by
    rw [Keyword.form, replace_list j rfl, replaceAll, replaceAll, replaceAll, replaceAll, hhead,
      hparams, replace_name]
    rfl
  rw [redex, replace_list i rfl, replaceAll, replaceAll, replaceAll, hproc, hw.replace_eq]
  rfl

/-- What a call makes of a body that is its parameter. -/
theorem replace_self (hl : IsLiteral l) (r : Value) :
    replace l r l = if l.equal l then pure r else pure l := by
  cases hself : l.equal l with
  | true => rw [replace_of_equal hself, if_pos rfl]
  | false =>
      cases hl with
      | self h =>
          cases l with
          | symbol | list => cases h
          | _ => rw [replace_of_not_isList _ _ rfl, hself]
      | quotation id v =>
          rw [Keyword.form] at hself ⊢
          rw [replace_of_isQuotation hself rfl]
          rfl

/-- What the call of the inner procedure makes of its body: the argument, if the
parameter is found there. -/
theorem instantiate_literal (v w : Value) (i next : Identity) :
    ∃ next', instantiate [(literal v i).1] [w] (literal v i).1 next =
      (if v.equal v then (literal w next).1 else (literal v i).1, next') := by
  have hreplaced : instantiate [(literal v i).1] [w] (literal v i).1 next =
      replace (literal v i).1 (literal w next).1 (literal v i).1 (literal w next).2 := by
    rw [instantiate_one]
    rfl
  rw [hreplaced, replace_self (isLiteral_literal v i), equal_literal]
  split <;> exact ⟨_, rfl⟩

theorem runFrom_redex_redex (hlambda : x ≠ Keyword.lambda.name)
    (hquote : x ≠ Keyword.quote.name) (limit left : Nat) (m : Memory Bindings) (v w : Value)
    (i j k i' j' k' n n' : Identity) :
    ∃ supply, Eval.runFrom m (Scoping.textual.eval limit (left + 3) ()
      (redex i j k (.symbol x) (redex i' j' k' (.symbol x) (.symbol x) (literal w n').1)
        (literal v n).1)) = (.ok (if v.equal v then w else v), ⟨supply, m.bound⟩) := by
  have houter : ∃ a b c next, instantiate [.symbol x] [v]
      (redex i' j' k' (.symbol x) (.symbol x) (literal w n').1) (m.supply + 1) =
        (redex a b c (literal v (m.supply + 1)).1 (literal v (m.supply + 1)).1
          (literal w n').1, next) := by
    rw [instantiate_one]
    exact ⟨_, _, _, _, replace_redex hlambda hquote (isLiteral_literal w n') i' j' k' _⟩
  obtain ⟨a, b, c, next, houter⟩ := houter
  obtain ⟨next', hinner⟩ := instantiate_literal v w (m.supply + 1) (next + 1)
  rw [runFrom_redex limit (left + 1), Eval.runFrom_bind, Eval.runFrom_supply, houter]
  dsimp only
  rw [runFrom_redex limit left, Eval.runFrom_bind, Eval.runFrom_supply, hinner]
  dsimp only
  refine ⟨next', ?_⟩
  split <;> exact runFrom_literal _ limit left () _ _ _

/-- `((lambda (x) ((lambda (x) x) w)) v)` -/
def shadowing (x : String) (v w : Value) (n : Identity) : Value :=
  redex n (n + 1) (n + 2) (.symbol x)
    (redex (n + 3) (n + 4) (n + 5) (.symbol x) (.symbol x) (literal w (n + 6)).1)
    (literal v (n + 7)).1

/-- An inner parameter shadows an outer one of the same name if the outer argument
is equal to itself, and does not if there is in the outer argument a float that is
not a number or an unspecified value. Nothing is defined by it, and three levels
are enough. -/
theorem evaluate_shadowing {limit : Nat} (hlimit : 3 ≤ limit)
    (hlambda : x ≠ Keyword.lambda.name) (hquote : x ≠ Keyword.quote.name)
    (m : Memory Bindings) (v w : Value) (n : Identity) :
    let run := Eval.runFrom m (Scoping.textual.evaluate limit () (shadowing x v w n))
    run.1 = .ok (if v.parts.all Value.isSelfEqual then w else v) ∧ run.2.bound = m.bound := by
  obtain ⟨left, rfl⟩ := Nat.exists_eq_add_of_le' hlimit
  obtain ⟨supply, hrun⟩ := runFrom_redex_redex hlambda hquote (left + 3) left m v w
    n (n + 1) (n + 2) (n + 3) (n + 4) (n + 5) (n + 7) (n + 6)
  rw [Scoping.evaluate, shadowing, hrun, Value.equal_self]
  exact ⟨rfl, rfl⟩

/-- The outer argument is a list that mentions the parameter. -/
theorem evaluate_shadowing_quoted : 3 ≤ Scoping.defaultDepth ∧
    "x" ≠ Keyword.lambda.name ∧ "x" ≠ Keyword.quote.name ∧
    (Eval.runFrom ⟨20, ∅⟩ (Scoping.textual.evaluate Scoping.defaultDepth ()
      (shadowing "x" (.list 9 [.symbol "x", .bool false]) (.int 3) 10))).1 = .ok (.int 3) := by
  have hlimit : 3 ≤ Scoping.defaultDepth := by decide
  have hlambda : "x" ≠ Keyword.lambda.name := by decide
  have hquote : "x" ≠ Keyword.quote.name := by decide
  exact ⟨hlimit, hlambda, hquote, (evaluate_shadowing hlimit hlambda hquote ⟨20, ∅⟩
    (.list 9 [.symbol "x", .bool false]) (.int 3) 10).1⟩

/-- An unspecified value is passed to the outer procedure and 3 to the inner one. No
limit lets the inner parameter be 3. -/
theorem not_shadowing_unspecified : ¬∃ least : Nat, ∀ limit, least ≤ limit →
    (Eval.runFrom ⟨20, ∅⟩ (Scoping.textual.evaluate limit ()
      (shadowing "x" .unspecified (.int 3) 10))).1 = .ok (.int 3) := by
  rintro ⟨least, hclaim⟩
  obtain ⟨supply, hrun⟩ := runFrom_redex_redex (x := "x") (by decide) (by decide)
    (least + 3) least ⟨20, ∅⟩ .unspecified (.int 3) 10 11 12 13 14 15 17 16
  have hthree := hclaim (least + 3) (Nat.le_add_right least 3)
  rw [Scoping.evaluate, shadowing, hrun] at hthree
  cases hthree

end Textual

end TwinScheme
