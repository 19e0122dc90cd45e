import TwinScheme.Proofs.Evaluator.Running
import TwinScheme.Proofs.Textual.Replacement
import TwinScheme.Textual.Scoping

/-!
# Parameters at once

A call replaces its parameters one after another. Usually that is not the same
as replacing them at once: what is put in for one may mention the next. Here it
is the same, whatever the arguments are and whatever the parameters are called,
since an expression for an argument is out of reach of every replacement. So the
order of the parameters does not matter, the result is one substitution, and of
no parameter is anything left outside quotations.
-/

namespace TwinScheme.Textual

variable {x : String} {σ : String → Option Value}

/-- The expressions that some arguments put in place of their parameters. -/
def assigned (pairs : List (String × Value)) : String → Option Value :=
  fun x => (pairs.lookup x).map fun v => (literal v 0).1

/-- A symbol stands in a tree, outside quotations. -/
inductive Mentions (x : String) : Value → Prop
  | here : Mentions x (.symbol x)
  | item {id items t} : isQuotation items = false → t ∈ items → Mentions x t →
      Mentions x (.list id items)

/-! ## The row of replacements -/

/-- A call evaluates the body with its parameters replaced, and an error leaves it
as it is. -/
theorem runFrom_call (eval : Unit → Value → Eval Bindings Value) (m : Memory Bindings)
    (id : Identity) {params args : List Value} (hlen : params.length = args.length)
    (body : Value) :
    Eval.runFrom m (Scoping.textual.apply eval (.lambda id params body) args) =
      Eval.runFrom m (do eval () (← Eval.supply (instantiate params args body))) := by
  have henter : Scoping.textual.enter (.lambda id params body) args =
      (do return ((), ← Eval.supply (instantiate params args body))) := by
    show enter (.lambda id params body) args = _
    rw [enter, if_neg (not_not.2 hlen)]
  rw [Scoping.apply_created _ _ _ (by simp), henter, bind_assoc, Eval.runFrom_bind,
    Eval.runFrom_bind, Eval.runFrom_supply]
  dsimp only
  rw [pure_bind, Eval.runFrom_tryCatch]
  rcases Eval.runFrom _ (eval () _) with ⟨_ | _, _⟩ <;> rfl

theorem instantiate_cons (param arg : Value) (params args : List Value) (body : Value) :
    instantiate (param :: params) (arg :: args) body = (do
      let l ← literal arg
      instantiate params args (← replace param l body)) := by
  rw [instantiate, List.zip_cons_cons, List.foldlM_cons, bind_assoc]
  rfl

theorem instantiate_one (param arg body : Value) :
    instantiate [param] [arg] body = (do replace param (← literal arg) body) := by
  rw [instantiate_cons]
  exact bind_congr fun _ => bind_pure _

theorem assigned_cons (x : String) (v : Value) (pairs : List (String × Value)) (y : String) :
    assigned ((x, v) :: pairs) y = (only x (literal v 0).1 y).or (assigned pairs y) := by
  unfold assigned only
  rw [List.lookup_cons]
  by_cases h : y = x
  · rw [beq_iff_eq.2 h, if_pos h]
    rfl
  · rw [beq_eq_false_iff_ne.2 h, if_neg h]
    rfl

theorem assigned_singleton (x : String) (v : Value) :
    assigned [(x, v)] = only x (literal v 0).1 := by
  funext y
  rw [assigned_cons]
  exact Option.or_none

/-- A row of replacements is one substitution. -/
theorem instantiate_tree (pairs : List (String × Value)) (body : Value) :
    (instantiate (pairs.map fun p => .symbol p.1) (pairs.map (·.2)) body).Ensures fun t =>
      t.tree = (substitute (assigned pairs) body).tree := by
  induction pairs generalizing body with
  | nil =>
      refine .pure ?_
      rw [show assigned [] = fun _ => none from rfl, substitute_none]
  | cons p pairs ih =>
      obtain ⟨x, v⟩ := p
      rw [List.map_cons, List.map_cons, instantiate_cons]
      refine (literal_tree v).bind fun l ⟨hl, hltree⟩ => ?_
      refine (replace_tree body).bind fun s hs => (ih s).imp fun t ht => ?_
      -- The parameters that are left are not in `l`, so both substitutions are one.
      have hboth : (substitute (assigned pairs) (substitute (only x l) body)).tree =
          (substitute (assigned ((x, v) :: pairs)) body).tree := by
        rw [substitute_substitute (hl.only x)]
        refine tree_substitute_congr rfl fun y => ?_
        rw [assigned_cons, Option.map_or, Option.map_or, map_tree_only (hltree 0)]
      rw [ht, ← hboth]
      exact tree_substitute_congr hs fun _ => rfl

/-! ## The order of the parameters -/

/-- Which of several pairs with different names has a given name does not depend
on their order. -/
theorem lookup_eq_of_perm {order pairs : List (String × Value)} (h : order.Perm pairs)
    (hdistinct : (pairs.map (·.1)).Nodup) (x : String) : order.lookup x = pairs.lookup x := by
  induction h with
  | nil => rfl
  | cons p _ ih =>
      rw [List.map_cons, List.nodup_cons] at hdistinct
      rw [List.lookup_cons, List.lookup_cons, ih hdistinct.2]
  | swap p q rest =>
      have hne : p.1 ≠ q.1 := by
        intro he
        rw [List.map_cons, List.map_cons, he] at hdistinct
        exact (List.nodup_cons.1 hdistinct).1 List.mem_cons_self
      rw [List.lookup_cons, List.lookup_cons, List.lookup_cons, List.lookup_cons]
      cases hp : x == p.1 with
      | false => rfl
      | true => rw [beq_eq_false_iff_ne.2 (eq_of_beq hp ▸ hne)]
  | trans _ h₂ ih₁ ih₂ =>
      rw [ih₁ ((h₂.map (·.1)).nodup_iff.2 hdistinct), ih₂ hdistinct]

theorem assigned_eq_of_perm {order pairs : List (String × Value)} (h : order.Perm pairs)
    (hdistinct : (pairs.map (·.1)).Nodup) : assigned order = assigned pairs := by
  funext x
  rw [assigned, assigned, lookup_eq_of_perm h hdistinct x]

/-! ## What is left of the parameters -/

theorem assigned_putsLiterals (pairs : List (String × Value)) :
    PutsLiterals (assigned pairs) := by
  intro x l hl
  obtain ⟨v, -, rfl⟩ := Option.map_eq_some_iff.1 hl
  exact isLiteral_literal v 0

theorem isSome_assigned {pairs : List (String × Value)} {p : String × Value} (hp : p ∈ pairs) :
    (assigned pairs p.1).isSome = true := by
  rw [assigned, Option.isSome_map, List.lookup_isSome_iff]
  exact ⟨p, hp, beq_self_eq_true p.1⟩

theorem IsLiteral.not_mentions {l : Value} (h : IsLiteral l) : ¬Mentions x l := by
  intro hm
  cases h with
  | self hself =>
      cases hm with
      | here | item => cases hself
  | quotation id v =>
      cases hm with
      | item hq _ _ => cases hq

theorem Mentions.tree {t : Value} (h : Mentions x t) : Mentions x t.tree := by
  induction h with
  | here => exact .here
  | @item id items t hq ht _ ih =>
      rw [Value.tree_list]
      exact .item ((isQuotation_tree items).trans hq) (List.mem_map_of_mem ht) ih

/-- Of a symbol that something is substituted for nothing is left. -/
theorem not_mentions_substitute (hσ : PutsLiterals σ) (hx : (σ x).isSome = true) :
    ∀ t : Value, ¬Mentions x (substitute σ t)
  | .symbol y, hm => by
      rw [substitute_symbol] at hm
      cases hy : σ y with
      | none =>
          rw [hy] at hm
          cases hm
          rw [hy] at hx
          cases hx
      | some l =>
          rw [hy] at hm
          exact (hσ y l hy).not_mentions hm
  | .list id items, hm => by
      cases hq : isQuotation items with
      | true =>
          rw [substitute_quotation id hq] at hm
          cases hm with
          | item hq' _ _ => cases hq'.symm.trans hq
      | false =>
          rw [substitute_list id hq] at hm
          cases hm with
          | item _ ht h =>
              obtain ⟨t, ht, rfl⟩ := List.mem_map.1 ht
              exact not_mentions_substitute hσ hx t h
  | .int _, hm | .float _, hm | .bool _, hm | .primitive _, hm | .closure .., hm
  | .lambda .., hm | .unspecified, hm => by cases hm

/-- What the parameters of a call leave behind mentions none of them. -/
theorem not_mentions_of_tree_eq {pairs : List (String × Value)} {made body : Value}
    (h : made.tree = (substitute (assigned pairs) body).tree) {p : String × Value}
    (hp : p ∈ pairs) : ¬Mentions p.1 made := by
  intro hm
  have htree : Mentions p.1
      (substitute (fun x => (assigned pairs x).map Value.tree) body.tree) := by
    rw [← tree_substitute, ← h]
    exact hm.tree
  refine not_mentions_substitute (fun x l hl => ?_) ?_ _ htree
  · obtain ⟨l', hl', rfl⟩ := Option.map_eq_some_iff.1 hl
    exact (assigned_putsLiterals pairs x l' hl').tree
  · rw [Option.isSome_map]
    exact isSome_assigned hp

/-- Replacing different parameters one after another is substituting for all of
them at once, in whatever order it is done. Nothing is left of a parameter
outside quotations, and what is put in for one is not touched by another. -/
theorem instantiate_atOnce {pairs : List (String × Value)}
    (hdistinct : (pairs.map (·.1)).Nodup) (body : Value) :
    (∀ order : List (String × Value), order.Perm pairs → ∀ next,
      let made := (instantiate (order.map fun p => .symbol p.1) (order.map (·.2)) body next).1
      made.tree = (substitute (assigned pairs) body).tree ∧ ∀ p ∈ pairs, ¬Mentions p.1 made) ∧
    ∀ p ∈ pairs, ∀ (x : String) (r : Value) (i : Identity),
      replace (.symbol x) r (literal p.2 i).1 = pure (literal p.2 i).1 := by
  refine ⟨fun order horder next => ?_, fun p _ x r i => (isLiteral_literal p.2 i).replace_eq⟩
  have hmade := (instantiate_tree order body next).1
  rw [assigned_eq_of_perm horder hdistinct] at hmade
  exact ⟨hmade, fun p hp => not_mentions_of_tree_eq hmade hp⟩

/-- Each argument mentions the parameter of the other. -/
def crossed : List (String × Value) :=
  [("x", .symbol "y"), ("y", .list 0 [.symbol "x"])]

/-- `(list y (quote x) x)` -/
def crossedBody : Value :=
  .list 2 [.symbol "list", .symbol "y", .list 1 [.symbol "quote", .symbol "x"], .symbol "x"]

theorem instantiate_crossed : (crossed.map (·.1)).Nodup ∧ crossed.reverse.Perm crossed ∧
    ("x", .symbol "y") ∈ crossed ∧
    (instantiate [.symbol "y", .symbol "x"] [.list 0 [.symbol "x"], .symbol "y"]
        crossedBody 3).1.tree =
      .list 0 [.symbol "list", .list 0 [.symbol "quote", .list 0 [.symbol "x"]],
        .list 0 [.symbol "quote", .symbol "x"], .list 0 [.symbol "quote", .symbol "y"]] := by
  have hdistinct : (crossed.map (·.1)).Nodup := by decide
  have horder : crossed.reverse.Perm crossed := List.reverse_perm crossed
  refine ⟨hdistinct, horder, List.mem_cons_self, ?_⟩
  exact ((instantiate_atOnce hdistinct crossedBody).1 _ horder 3).1

end TwinScheme.Textual
