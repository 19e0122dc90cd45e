import TwinScheme.Lexical.Scoping
import TwinScheme.Proofs.Agreement.Substitution

/-!
# Substitution keeps the shape of a form

A special form is recognised by its keyword and taken apart before any of it is
evaluated, so what replacing parameters does to a form has to leave it the same
form with the same names. It does where nothing that the form treats as a name
is a parameter, and that is what hygiene says of binders and targets.
-/

namespace TwinScheme

open List (Forall₂)

variable {W : Correspondence} {kept : Meanings} {ρ : Locals}

namespace Code

theorem eq_symbol {x : String} {s : Value} (hx : ρ x = none)
    (h : Code W kept ρ (.symbol x) s) : s = .symbol x := by
  cases h with
  | value hself _ => cases hself
  | free _ => rfl
  | bound hbound _ _ =>
      rw [hx] at hbound
      cases hbound

theorem eq_symbols {params : List String} {ss : List Value} (hnew : ∀ x ∈ params, ρ x = none)
    (h : Forall₂ (Code W kept ρ) (params.map .symbol) ss) : ss = params.map .symbol := by
  induction params generalizing ss with
  | nil => exact (List.forall₂_nil_left_iff.1 h)
  | cons x params ih =>
      obtain ⟨s, ss, hs, hss, rfl⟩ := List.forall₂_cons_left_iff.1 h
      rw [eq_symbol (hnew x List.mem_cons_self) hs,
        ih (fun y hy => hnew y (List.mem_cons_of_mem _ hy)) hss, List.map_cons]

theorem exists_symbol {e : Value} {x : String} (h : Code W kept ρ e (.symbol x)) :
    ∃ y, e = .symbol y := by
  cases h with
  | value hself hes =>
      rw [hes.isSelfEvaluating_eq] at hself
      cases hself
  | free _ | bound _ _ _ => exact ⟨_, rfl⟩

/-- With nothing bound, only lists stand opposite lists. -/
theorem exists_list_left {e : Value} {j : Identity} {items' : List Value}
    (hρ : ∀ x, ρ x = none) (h : Code W kept ρ e (.list j items')) :
    ∃ i items, e = .list i items := by
  cases h with
  | value hself hes =>
      rw [hes.isSelfEvaluating_eq] at hself
      cases hself
  | bound hx _ _ =>
      rw [hρ] at hx
      cases hx
  | quotation _ | list _ _ => exact ⟨_, _, rfl⟩

theorem exists_list {id : Identity} {items : List Value} {s : Value}
    (hq : Textual.isQuotation items = false) (h : Code W kept ρ (.list id items) s) :
    ∃ j items', s = .list j items' ∧ Forall₂ (Code W kept ρ) items items' := by
  cases h with
  | value hself _ => cases hself
  | quotation _ => cases hq
  | list _ hitems => exact ⟨_, _, rfl, hitems⟩

theorem exists_form {k : Keyword} {id : Identity} {operands : List Value} {s : Value}
    (hk : k ≠ .quote) (hfree : ρ k.name = none) (h : Code W kept ρ (k.form id operands) s) :
    ∃ j operands', s = k.form j operands' ∧ Forall₂ (Code W kept ρ) operands operands' := by
  have hq : Textual.isQuotation (.symbol k.name :: operands) = false := by
    cases k with
    | quote => exact absurd rfl hk
    | _ => rfl
  obtain ⟨j, items', rfl, hitems⟩ := exists_list hq h
  obtain ⟨head, operands', hhead, hoperands, rfl⟩ := List.forall₂_cons_left_iff.1 hitems
  cases eq_symbol hfree hhead
  exact ⟨j, operands', rfl, hoperands⟩

theorem exists_quote {id : Identity} {operands : List Value} {s : Value}
    (h : Code W kept ρ (Keyword.quote.form id operands) s) :
    ∃ j operands', s = Keyword.quote.form j operands' ∧
      Forall₂ (Matches W) operands operands' := by
  cases h with
  | value hself _ => cases hself
  | quotation hrest => exact ⟨_, _, rfl, hrest⟩
  | list hq _ => cases hq

theorem exists_params {id : Identity} {params : List String} {s : Value}
    (hplain : ∀ x ∈ params, Plain x) (hnew : ∀ x ∈ params, ρ x = none)
    (h : Code W kept ρ (.list id (params.map .symbol)) s) :
    ∃ j, s = .list j (params.map .symbol) := by
  have hq : Textual.isQuotation (params.map .symbol) = false := by
    cases params with
    | nil => rfl
    | cons x params =>
        exact beq_eq_false_iff_ne.2 ((hplain x List.mem_cons_self).ne_keyword .quote)
  obtain ⟨j, items', rfl, hitems⟩ := exists_list hq h
  rw [eq_symbols hnew hitems]
  exact ⟨j, rfl⟩

/-- Opposite a form that names something stands one that names the same. -/
theorem exists_named {k : Keyword} {id : Identity} {x : String} {e s : Value} (hk : k ≠ .quote)
    (hfree : ρ k.name = none) (hx : ρ x = none)
    (h : Code W kept ρ (k.form id [.symbol x, e]) s) :
    ∃ j e', s = k.form j [.symbol x, e'] ∧ Code W kept ρ e e' := by
  obtain ⟨j, operands', rfl, hoperands⟩ := exists_form hk hfree h
  match hoperands with
  | .cons hname (.cons he .nil) =>
      cases eq_symbol hx hname
      exact ⟨j, _, rfl, he⟩

theorem ne_nil {es ss : List Value} (h : Forall₂ (Code W kept ρ) es ss) (hne : es ≠ []) :
    ss ≠ [] := by
  rintro rfl
  exact hne (List.forall₂_nil_right_iff.1 h)

/-- Opposite a form that begins with a list of names stands one that begins with
the same. -/
theorem exists_headed {k : Keyword} {id i : Identity} {params : List String} {body : List Value}
    {s : Value} (hk : k ≠ .quote) (hfree : ρ k.name = none) (hplain : ∀ x ∈ params, Plain x)
    (hnew : ∀ x ∈ params, ρ x = none)
    (h : Code W kept ρ (k.form id (.list i (params.map .symbol) :: body)) s) :
    ∃ j i' body', s = k.form j (.list i' (params.map .symbol) :: body') ∧
      Forall₂ (Code W kept ρ) body body' := by
  obtain ⟨j, operands', rfl, hoperands⟩ := exists_form hk hfree h
  obtain ⟨names, body', hnames, hbody, rfl⟩ := List.forall₂_cons_left_iff.1 hoperands
  obtain ⟨i', rfl⟩ := exists_params hplain hnew hnames
  exact ⟨j, i', body', rfl, hbody⟩

/-- A clause of a `cond` begins with `else` opposite one that does. -/
theorem isElse_eq {e s : Value} (helse : ρ "else" = none) (h : Code W kept ρ e s) :
    Form.isElse e = Form.isElse s := by
  cases h with
  | value hself hes =>
      have hs : s.isSelfEvaluating = true := hes.isSelfEvaluating_eq ▸ hself
      rw [Form.isElse_of_isSelfEvaluating hself, Form.isElse_of_isSelfEvaluating hs]
  | free _ => rfl
  | @bound x _ _ _ hx _ hs =>
      have hne : x ≠ "else" := by
        rintro rfl
        rw [helse] at hx
        cases hx
      have hx' : Form.isElse (.symbol x) = false := beq_eq_false_iff_ne.2 hne
      rw [hx']
      cases hs with
      | self hself => exact (Form.isElse_of_isSelfEvaluating hself).symm
      | quotation _ => rfl
      | name hmeaning =>
          have hplain := kept.plain _ (kept.mem_settled hmeaning)
          exact (beq_eq_false_iff_ne.2 hplain.not_else).symm
  | quotation _ => rfl
  | list _ _ => rfl

/-- What heads a combination heads one after substitution. -/
theorem keyword?_eq_none {e s : Value} (hhead : Form.keyword? e = none)
    (h : Code W kept ρ e s) : Form.keyword? s = none := by
  cases h with
  | value hself hes => exact Form.keyword?_of_isSelfEvaluating (hes.isSelfEvaluating_eq ▸ hself)
  | free _ => exact hhead
  | bound _ _ hs =>
      cases hs with
      | self hself => exact Form.keyword?_of_isSelfEvaluating hself
      | quotation _ => rfl
      | name hmeaning => exact (kept.plain _ (kept.mem_settled hmeaning)).not_keyword
  | quotation _ | list _ _ => rfl

end Code

/-! ## Taking forms apart -/

theorem Textual.isQuotation_eq_false_of_keyword? {head : Value}
    (h : Form.keyword? head = none) (rest : List Value) :
    Textual.isQuotation (head :: rest) = false := by
  unfold Textual.isQuotation
  split
  · next name tail heq =>
    cases heq
    refine beq_eq_false_iff_ne.2 ?_
    rintro rfl
    rw [Form.keyword?_name] at h
    cases h
  · rfl

/-- The pairs of a `let`, and those of the `let` opposite. -/
theorem Code.exists_pairs {j : Identity} {pairs : List LetPair} {s : Value}
    (hplain : ∀ x ∈ pairs.map (·.name), Plain x)
    (hnew : ∀ x ∈ pairs.map (·.name), ρ x = none)
    (h : Code W kept ρ (.list j (pairs.map (·.toValue))) s) :
    ∃ exprs, Form.pairs s = .ok (((pairs.map (·.name)).map Value.symbol).zip exprs) ∧
      Forall₂ (Code W kept ρ) (pairs.map (·.expr)) exprs := by
  have hq : Textual.isQuotation (pairs.map (·.toValue)) = false := by
    cases pairs <;> rfl
  obtain ⟨i, items, rfl, hitems⟩ := Code.exists_list hq h
  rw [Form.pairs]
  clear h hq
  induction pairs generalizing items with
  | nil =>
      cases hitems
      exact ⟨[], rfl, .nil⟩
  | cons p pairs ih =>
      obtain ⟨item, items, hitem, hrest, rfl⟩ := List.forall₂_cons_left_iff.1 hitems
      obtain ⟨exprs, hexprs, hcode⟩ :=
        ih (fun x hx => hplain x (List.mem_cons_of_mem _ hx))
          (fun x hx => hnew x (List.mem_cons_of_mem _ hx)) items hrest
      have hname : Textual.isQuotation [.symbol p.name, p.expr] = false :=
        beq_eq_false_iff_ne.2 ((hplain p.name List.mem_cons_self).ne_keyword .quote)
      obtain ⟨k, parts, rfl, hparts⟩ := Code.exists_list hname hitem
      obtain ⟨binding, rest, hbinding, hexprs', rfl⟩ := List.forall₂_cons_left_iff.1 hparts
      obtain ⟨expr, rest, hexpr, hnil, rfl⟩ := List.forall₂_cons_left_iff.1 hexprs'
      cases hnil
      cases Code.eq_symbol (hnew p.name List.mem_cons_self) hbinding
      refine ⟨expr :: exprs, ?_, .cons hexpr hcode⟩
      rw [List.mapM_cons, hexprs]
      rfl

/-- Opposite a `let` stands one that binds the same names. -/
theorem Code.exists_let {id i : Identity} {pairs : List LetPair} {body : List Value} {s : Value}
    (hfree : ρ Keyword.letForm.name = none) (hplain : ∀ x ∈ pairs.map (·.name), Plain x)
    (hnew : ∀ x ∈ pairs.map (·.name), ρ x = none) (hne : body ≠ [])
    (h : Code W kept ρ (Keyword.letForm.form id (.list i (pairs.map (·.toValue)) :: body)) s) :
    ∃ j operands exprs body', s = Keyword.letForm.form j operands ∧
      Form.parse .letForm operands =
        .ok (.bind (((pairs.map (·.name)).map Value.symbol).zip exprs) body') ∧
      Forall₂ (Code W kept ρ) (pairs.map (·.expr)) exprs ∧
      Forall₂ (Code W kept ρ) body body' := by
  obtain ⟨j, operands', rfl, hoperands⟩ := Code.exists_form (by decide) hfree h
  obtain ⟨bindings, body', hbindings, hbody, rfl⟩ := List.forall₂_cons_left_iff.1 hoperands
  obtain ⟨exprs, hpairs, hexprs⟩ := Code.exists_pairs hplain hnew hbindings
  exact ⟨j, _, exprs, body', rfl, Form.parse_let (Code.ne_nil hbody hne) hpairs, hexprs, hbody⟩

/-- Why operands that do not fit a keyword are refused. -/
def Misfit.refusal (k : Keyword) (count : Nat) : Error :=
  match k with
  | .letForm => if count = 0 then .arity 2 0 else .eval .emptyLet none
  | .set | .define =>
    if count = 2 then .type (.targetNotSymbol k) none else .arity 2 count
  | _ => .arity 2 count

theorem length_ne_two {α : Type} {l : List α} (h : ∀ a b, l = [a, b] → False) :
    l.length ≠ 2 := by
  intro hl
  obtain ⟨a, b, rfl⟩ := List.length_eq_two.1 hl
  exact h a b rfl

theorem Misfit.ne_quote {s : Scope} {k : Keyword} {operands : List Value}
    (h : Misfit s k operands) : k ≠ .quote := by
  rintro rfl
  exact h

theorem Misfit.parse_eq {s : Scope} {k : Keyword} {operands : List Value}
    (h : Misfit s k operands) :
    Form.parse k operands = .error (Misfit.refusal k operands.length) := by
  rw [Form.parse.eq_def]
  cases k with
  | quote | cond | ite | begin => cases h
  | lambda =>
      split <;> first | contradiction | rfl
  | letForm =>
      split <;> try contradiction
      · rfl
      · rfl
      · next bindings body hne _ =>
        obtain ⟨b, body, rfl⟩ := List.exists_cons_of_ne_nil hne
        exact absurd h (by simp [Misfit])
  | set =>
      split <;> try contradiction
      · next name expr _ => exact absurd rfl (h name expr)
      · rfl
      · next _ hlen => rw [Misfit.refusal, if_neg (length_ne_two hlen)]
  | define =>
      obtain ⟨-, hname, hsignature⟩ := h
      split <;> try contradiction
      · next name expr _ => exact absurd rfl (hname name expr)
      · next id items b body _ => exact absurd rfl (hsignature id items b body)
      · rfl
      · next _ _ hlen => rw [Misfit.refusal, if_neg (length_ne_two hlen)]

/-- Replacing parameters does not make operands fit. -/
theorem Misfit.transfer {s : Scope} {k : Keyword} {operands operands' : List Value}
    (hfit : Misfit s k operands) (hfree : s = .outermost → ∀ x, ρ x = none)
    (h : Forall₂ (Code W kept ρ) operands operands') : Misfit s k operands' := by
  cases k with
  | quote | cond | ite | begin => cases hfit
  | lambda => exact fun h' => hfit (h.length_eq.trans h')
  | letForm => exact lt_of_eq_of_lt h.length_eq.symm hfit
  | set =>
      rintro name expr rfl
      match h with
      | .cons htarget (.cons _ .nil) =>
          obtain ⟨x, rfl⟩ := htarget.exists_symbol
          exact hfit _ _ rfl
  | define =>
      obtain ⟨houter, hname, hsignature⟩ := hfit
      refine ⟨houter, ?_, ?_⟩
      · rintro name expr rfl
        match h with
        | .cons htarget (.cons _ .nil) =>
            obtain ⟨x, rfl⟩ := htarget.exists_symbol
            exact hname _ _ rfl
      · rintro id items b body rfl
        match h with
        | .cons htarget (.cons _ _) =>
            obtain ⟨j, others, rfl⟩ := htarget.exists_list_left (hfree houter)
            exact hsignature _ _ _ _ rfl

end TwinScheme
