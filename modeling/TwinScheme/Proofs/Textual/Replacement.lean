import TwinScheme.Textual.Substitution
import TwinScheme.Proofs.Evaluator.Forms
import TwinScheme.Proofs.Evaluator.Supply

/-!
# What replacing makes of a tree

`replace` makes every list anew, so what it makes is known up to the identities
of lists only. `Value.tree` forgets them, and two values with one `tree` are the
same tree, as often as it was copied.

Without identities there is nothing to be done in order, and `substitute` says
what a replacement comes to: expressions in place of symbols, at every place but
in quotations, all at once. What a call puts in are expressions for values. They
are no symbols and have none outside quotations, so nothing that is put in is
replaced by a later parameter, no list becomes a quotation or ceases to be one,
and one substitution after another is a single one.
-/

namespace TwinScheme

/-! ## Trees -/

namespace Value

mutual

/-- The tree that a value is, whatever the identities of the lists in it. -/
def tree : Value → Value
  | list _ items => list 0 (treeAll items)
  | v => v

/-- The trees that several values are. -/
def treeAll : List Value → List Value
  | [] => []
  | v :: vs => v.tree :: treeAll vs

end

theorem treeAll_eq_map (vs : List Value) : treeAll vs = vs.map tree := by
  induction vs with
  | nil => rfl
  | cons v vs ih => rw [treeAll, ih, List.map_cons]

theorem tree_list (id : Identity) (items : List Value) :
    (list id items).tree = list 0 (items.map tree) := by
  rw [tree, treeAll_eq_map]

theorem tree_of_not_isList {v : Value} (h : v.isList = false) : v.tree = v := by
  cases v with
  | list => cases h
  | _ => rfl

theorem isList_tree (v : Value) : v.tree.isList = v.isList := by
  cases v <;> rfl

/-- Only a list has the tree of a list. -/
theorem exists_of_tree_eq_list {v : Value} {items : List Value} (h : v.tree = list 0 items) :
    ∃ id items', v = list id items' ∧ items'.map tree = items := by
  cases v with
  | list id items' =>
      rw [tree_list] at h
      injection h with _ hitems
      exact ⟨id, items', rfl, hitems⟩
  | _ => cases h

theorem eq_of_tree_eq {v w : Value} (hw : w.isList = false) (h : v.tree = w) : v = w := by
  have hv : v.isList = false := by
    rw [← isList_tree, h, hw]
  rw [← tree_of_not_isList hv, h]

end Value

namespace Textual

variable {x : String} {r : Value}

theorem isQuotation_tree (items : List Value) :
    isQuotation (items.map Value.tree) = isQuotation items := by
  cases items with
  | nil => rfl
  | cons v rest => cases v <;> rfl

/-- A quotation is recognised by its first element. -/
theorem isQuotation_cons_of_not_isSymbol {v : Value} (h : v.isSymbol = false)
    (rest : List Value) : isQuotation (v :: rest) = false := by
  cases v with
  | symbol => cases h
  | _ => rfl

/-! ## One replacement, place by place -/

theorem replace_of_equal {name tree : Value} (h : tree.equal name = true) :
    replace name r tree = pure r := by
  rw [replace.eq_def, if_pos h]

/-- A tree that is not a list is replaced or kept. -/
theorem replace_of_not_isList (name replacement : Value) {tree : Value}
    (h : tree.isList = false) :
    replace name replacement tree =
      if tree.equal name then pure replacement else pure tree := by
  cases tree with
  | list => cases h
  | _ =>
      rw [replace]
      intro _ _ hlist
      cases hlist

theorem replace_of_isQuotation {name : Value} {id : Identity} {items : List Value}
    (h : (Value.list id items).equal name = false) (hq : isQuotation items = true) :
    replace name r (.list id items) = pure (.list id items) := by
  rw [replace.eq_def, h]
  simp [hq]

theorem replace_items {name : Value} {id : Identity} {items : List Value}
    (h : (Value.list id items).equal name = false) (hq : isQuotation items = false) :
    replace name r (.list id items) = (do Fresh.list (← replaceAll name r items)) := by
  rw [replace.eq_def, h]
  simp [hq]

theorem equal_symbol_eq_false {tree : Value} (h : tree ≠ .symbol x) :
    tree.equal (.symbol x) = false := by
  cases tree with
  | symbol name => exact beq_eq_false_iff_ne.2 fun he => h (he ▸ rfl)
  | _ => rfl

theorem replace_name (x : String) (r : Value) :
    replace (.symbol x) r (.symbol x) = pure r :=
  replace_of_equal (beq_self_eq_true x)

theorem replace_of_ne {tree : Value} (h : tree ≠ .symbol x) (hlist : tree.isList = false) :
    replace (.symbol x) r tree = pure tree := by
  rw [replace_of_not_isList _ _ hlist, equal_symbol_eq_false h]
  rfl

theorem replace_quotation (id : Identity) (rest : List Value) :
    replace (.symbol x) r (Keyword.quote.form id rest) = pure (Keyword.quote.form id rest) :=
  replace_of_isQuotation rfl rfl

theorem replace_list (id : Identity) {items : List Value} (hq : isQuotation items = false) :
    replace (.symbol x) r (.list id items) =
      (do Fresh.list (← replaceAll (.symbol x) r items)) :=
  replace_items rfl hq

/-! ## Substitution at once -/

mutual

/-- A tree with expressions in place of symbols. A quotation is data and is kept
as it is. -/
def substitute (σ : String → Option Value) : Value → Value
  | .symbol x => (σ x).getD (.symbol x)
  | .list id items => .list id (if isQuotation items then items else substituteAll σ items)
  | v => v

/-- The same in several trees. -/
def substituteAll (σ : String → Option Value) : List Value → List Value
  | [] => []
  | v :: vs => substitute σ v :: substituteAll σ vs

end

/-- One expression in place of one symbol. -/
def only (x : String) (r : Value) : String → Option Value :=
  fun y => if y = x then some r else none

variable {σ τ : String → Option Value}

theorem substituteAll_eq_map (vs : List Value) :
    substituteAll σ vs = vs.map (substitute σ) := by
  induction vs with
  | nil => rfl
  | cons v vs ih => rw [substituteAll, ih, List.map_cons]

theorem substitute_symbol (x : String) :
    substitute σ (.symbol x) = (σ x).getD (.symbol x) := rfl

theorem substitute_list (id : Identity) {items : List Value} (hq : isQuotation items = false) :
    substitute σ (.list id items) = .list id (items.map (substitute σ)) := by
  rw [substitute, hq, substituteAll_eq_map]
  rfl

theorem substitute_quotation (id : Identity) {items : List Value}
    (hq : isQuotation items = true) : substitute σ (.list id items) = .list id items := by
  rw [substitute, if_pos hq]

theorem substitute_of_isSelfEvaluating {v : Value} (h : v.isSelfEvaluating = true) :
    substitute σ v = v := by
  cases v with
  | symbol | list => cases h
  | _ => rfl

mutual

/-- Which tree a substitution makes does not depend on identities. -/
theorem tree_substitute : ∀ t : Value,
    (substitute σ t).tree = substitute (fun x => (σ x).map Value.tree) t.tree
  | .symbol x => by
      rw [substitute, Value.tree_of_not_isList (v := .symbol x) rfl, substitute]
      cases σ x <;> rfl
  | .list id items => by
      rw [substitute, Value.tree, Value.tree, substitute, Value.treeAll_eq_map items,
        isQuotation_tree]
      split
      · rw [Value.treeAll_eq_map]
      · rw [← Value.treeAll_eq_map, treeAll_substituteAll items]
  | .int _ | .float _ | .bool _ | .primitive _ | .closure .. | .lambda .. | .unspecified => rfl

theorem treeAll_substituteAll : ∀ ts : List Value,
    Value.treeAll (substituteAll σ ts) =
      substituteAll (fun x => (σ x).map Value.tree) (Value.treeAll ts)
  | [] => rfl
  | t :: ts => by
      rw [substituteAll, Value.treeAll, Value.treeAll, substituteAll, tree_substitute t,
        treeAll_substituteAll ts]

end

/-- Substituting the same trees in the same tree gives the same tree. -/
theorem tree_substitute_congr {s t : Value} (hst : s.tree = t.tree)
    (hστ : ∀ x, (σ x).map Value.tree = (τ x).map Value.tree) :
    (substitute σ s).tree = (substitute τ t).tree := by
  rw [tree_substitute, tree_substitute, hst]
  congr 1
  exact funext hστ

theorem map_tree_only {a b : Value} (h : a.tree = b.tree) (y : String) :
    (only x a y).map Value.tree = (only x b y).map Value.tree := by
  unfold only
  split
  · exact congrArg some h
  · rfl

mutual

/-- Nothing in place of nothing. -/
theorem substitute_none : ∀ t : Value, substitute (fun _ => none) t = t
  | .symbol _ => rfl
  | .list id items => by
      rw [substitute, substituteAll_none items, ite_self]
  | .int _ | .float _ | .bool _ | .primitive _ | .closure .. | .lambda .. | .unspecified => rfl

theorem substituteAll_none : ∀ ts : List Value, substituteAll (fun _ => none) ts = ts
  | [] => rfl
  | t :: ts => by
      rw [substituteAll, substitute_none t, substituteAll_none ts]

end

mutual

/-- A replacement is a substitution. -/
theorem replace_tree : ∀ t : Value, (replace (.symbol x) r t).Ensures fun s =>
    s.tree = (substitute (only x r) t).tree
  | .symbol y => by
      by_cases h : y = x
      · subst h
        rw [replace_name, substitute, only, if_pos rfl]
        exact .pure rfl
      · rw [replace_of_ne (by simpa using h) rfl, substitute, only, if_neg h]
        exact .pure rfl
  | .list id items => by
      cases hq : isQuotation items with
      | true =>
          rw [replace_of_isQuotation rfl hq, substitute_quotation id hq]
          exact .pure rfl
      | false =>
          rw [replace_list id hq, substitute_list id hq, Value.tree_list, ← substituteAll_eq_map]
          refine (replaceAll_tree items).bind fun made hmade => .list fun i => ?_
          rw [Value.tree_list, hmade]
  | .int _ | .float _ | .bool _ | .primitive _ | .closure .. | .lambda .. | .unspecified =>
      .pure rfl

theorem replaceAll_tree : ∀ ts : List Value, (replaceAll (.symbol x) r ts).Ensures fun ss =>
    ss.map Value.tree = (substituteAll (only x r) ts).map Value.tree
  | [] => .pure rfl
  | t :: ts => by
      rw [replaceAll, substituteAll]
      refine (replace_tree t).bind fun s hs => (replaceAll_tree ts).bind fun ss hss => .pure ?_
      rw [List.map_cons, List.map_cons, hs, hss]

end

/-! ## Expressions for values -/

/-- What is put in place of a parameter: a value that evaluates to itself, or a
quotation. -/
inductive IsLiteral : Value → Prop
  | self {v} : v.isSelfEvaluating = true → IsLiteral v
  | quotation (id v) : IsLiteral (Keyword.quote.form id [v])

theorem literal_of_isSelfEvaluating {v : Value} (h : v.isSelfEvaluating = true) :
    literal v = pure v := by
  cases v with
  | symbol | list => cases h
  | _ => rfl

theorem literal_of_not_isSelfEvaluating {v : Value} (h : v.isSelfEvaluating = false)
    (next : Identity) : literal v next = (Keyword.quote.form next [v], next + 1) := by
  cases v with
  | symbol | list => rfl
  | _ => cases h

/-- Which tree the expression for a value is does not depend on when it is made. -/
theorem literal_tree (v : Value) : (literal v).Ensures fun l =>
    IsLiteral l ∧ ∀ i, l.tree = (literal v i).1.tree := by
  cases h : v.isSelfEvaluating with
  | true =>
      rw [literal_of_isSelfEvaluating h]
      exact .pure ⟨.self h, fun _ => rfl⟩
  | false =>
      intro next
      rw [literal_of_not_isSelfEvaluating h]
      refine ⟨⟨.quotation next v, fun i => ?_⟩, Nat.le_succ next⟩
      rw [literal_of_not_isSelfEvaluating h, Keyword.form, Keyword.form, Value.tree_list,
        Value.tree_list]

theorem isLiteral_literal (v : Value) (i : Identity) : IsLiteral (literal v i).1 :=
  (literal_tree v i).1.1

namespace IsLiteral

variable {l : Value}

theorem not_isSymbol (h : IsLiteral l) : l.isSymbol = false := by
  cases h with
  | self hself =>
      cases l with
      | symbol => cases hself
      | _ => rfl
  | quotation => rfl

theorem tree (h : IsLiteral l) : IsLiteral l.tree := by
  cases h with
  | self hself =>
      cases l with
      | symbol | list => cases hself
      | _ => exact .self hself
  | quotation id v =>
      rw [Keyword.form, Value.tree_list]
      exact .quotation 0 v.tree

/-- Nothing is substituted in an expression for a value. -/
theorem substitute_eq (h : IsLiteral l) : substitute σ l = l := by
  cases h with
  | self hself => exact substitute_of_isSelfEvaluating hself
  | quotation id v => exact substitute_quotation id rfl

theorem replace_eq (h : IsLiteral l) : replace (.symbol x) r l = pure l := by
  cases h with
  | self hself =>
      cases l with
      | symbol | list => cases hself
      | _ => exact replace_of_ne (by simp) rfl
  | quotation id v => exact replace_quotation id _

end IsLiteral

/-! ## One substitution after another -/

/-- A substitution that puts in expressions for values. -/
def PutsLiterals (σ : String → Option Value) : Prop :=
  ∀ x l, σ x = some l → IsLiteral l

theorem IsLiteral.only {l : Value} (h : IsLiteral l) (x : String) : PutsLiterals (only x l) := by
  intro y l' hl'
  unfold Textual.only at hl'
  split at hl'
  · cases hl'
    exact h
  · cases hl'

/-- No list becomes a quotation. -/
theorem PutsLiterals.isQuotation_map (hσ : PutsLiterals σ) {items : List Value}
    (hq : isQuotation items = false) : isQuotation (items.map (substitute σ)) = false := by
  cases items with
  | nil => rfl
  | cons v rest =>
      cases v with
      | symbol x =>
          rw [List.map_cons, substitute]
          cases hx : σ x with
          | none => exact hq
          | some l => exact isQuotation_cons_of_not_isSymbol (hσ x l hx).not_isSymbol _
      | _ => rfl

mutual

/-- What the first substitution puts in is out of reach of the second. -/
theorem substitute_substitute (hσ : PutsLiterals σ) : ∀ t : Value,
    substitute τ (substitute σ t) = substitute (fun x => (σ x).or (τ x)) t
  | .symbol x => by
      rw [substitute_symbol, substitute_symbol]
      cases hx : σ x with
      | none => rfl
      | some l => exact (hσ x l hx).substitute_eq
  | .list id items => by
      cases hq : isQuotation items with
      | true => rw [substitute_quotation id hq, substitute_quotation id hq,
          substitute_quotation id hq]
      | false =>
          rw [substitute_list id hq, substitute_list id (hσ.isQuotation_map hq),
            substitute_list id hq, List.map_map, ← substituteAll_substituteAll hσ items]
  | .int _ | .float _ | .bool _ | .primitive _ | .closure .. | .lambda .. | .unspecified => rfl

theorem substituteAll_substituteAll (hσ : PutsLiterals σ) : ∀ ts : List Value,
    ts.map (substitute τ ∘ substitute σ) = ts.map (substitute fun x => (σ x).or (τ x))
  | [] => rfl
  | t :: ts => by
      rw [List.map_cons, List.map_cons, Function.comp_apply, substitute_substitute hσ t,
        substituteAll_substituteAll hσ ts]

end

end Textual

end TwinScheme
