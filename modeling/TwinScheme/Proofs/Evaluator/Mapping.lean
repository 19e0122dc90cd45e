import Mathlib.Data.List.Forall2
import TwinScheme.Lexical.Scoping
import TwinScheme.Proofs.Evaluator.Running
import TwinScheme.Textual.Scoping

/-!
# `map` calls in order

`map` calls a procedure with the first elements of its lists, then with the second
elements, and so on while every list has one. `InOrder` is what making such calls
comes to: each starts from the memory that the one before left, and the first to
fail ends it, memory included. `Columns` is what they are made with.

None of this depends on how a body is evaluated or how names are bound. What `map`
refuses it refuses on its arguments alone, before it asks for any call.
-/

namespace TwinScheme

open List (Forall₂)

variable {σ ρ : Type}

/-- Calls made one after another. -/
inductive InOrder (call : List Value → Eval σ Value) :
    List (List Value) → Memory σ → Except Error (List Value) → Memory σ → Prop
  | nil (m : Memory σ) : InOrder call [] m (.ok []) m
  | failed {args : List Value} {rest : List (List Value)} {e : Error} {m n : Memory σ} :
      Eval.runFrom m (call args) = (.error e, n) → InOrder call (args :: rest) m (.error e) n
  | returned {args : List Value} {rest : List (List Value)} {v : Value}
      {r : Except Error (List Value)} {m n k : Memory σ} :
      Eval.runFrom m (call args) = (.ok v, n) → InOrder call rest n r k →
      InOrder call (args :: rest) m (r.map (v :: ·)) k

theorem inOrder_mapM (call : List Value → Eval σ Value) (calls : List (List Value))
    (m : Memory σ) :
    InOrder call calls m (Eval.runFrom m (calls.mapM call)).1
      (Eval.runFrom m (calls.mapM call)).2 := by
  induction calls generalizing m with
  | nil => exact .nil m
  | cons args rest ih =>
      rw [List.mapM_cons, Eval.runFrom_bind]
      cases hcall : Eval.runFrom m (call args) with
      | mk r n =>
          cases r with
          | error e => exact .failed hcall
          | ok v =>
              simp only
              have hrest := InOrder.returned hcall (ih n)
              rw [Eval.runFrom_bind]
              cases hr : Eval.runFrom n (rest.mapM call) with
              | mk rs k =>
                  rw [hr] at hrest
                  cases rs <;> exact hrest

namespace Lists

/-- The elements at each position of some lists, as far as the shortest of them
goes. -/
structure Columns (lists tuples : List (List Value)) : Prop where
  fits : ∀ items ∈ lists, tuples.length ≤ items.length
  shortest : ∃ items ∈ lists, items.length = tuples.length
  tuple : ∀ (i : Nat) (t : List Value), tuples[i]? = some t →
    Forall₂ (fun (items : List Value) v => items[i]? = some v) lists t

theorem shortest_le {lists : List (List Value)} {items : List Value} (h : items ∈ lists) :
    shortest lists ≤ items.length := by
  have hlength : items.length ∈ lists.map List.length := List.mem_map_of_mem h
  unfold shortest
  cases hmin : (lists.map List.length).min? with
  | none =>
      rw [List.min?_eq_none_iff.1 hmin] at hlength
      cases hlength
  | some k => exact (List.min?_eq_some_iff.1 hmin).2 _ hlength

theorem exists_length_eq_shortest {lists : List (List Value)} (h : lists ≠ []) :
    ∃ items ∈ lists, items.length = shortest lists := by
  unfold shortest
  cases hmin : (lists.map List.length).min? with
  | none => simp [h] at hmin
  | some k => exact List.mem_map.1 (List.min?_eq_some_iff.1 hmin).1

/-- Within every list, a row has one element of each. -/
theorem row_forall₂ {lists : List (List Value)} {i : Nat} (h : ∀ items ∈ lists, i < items.length) :
    Forall₂ (fun (items : List Value) v => items[i]? = some v) lists (row lists i) := by
  induction lists with
  | nil => exact .nil
  | cons items lists ih =>
      obtain ⟨hitems, hlists⟩ := List.forall_mem_cons.1 h
      have hfirst : items[i]? = some items[i] := List.getElem?_eq_getElem hitems
      have hrow : row (items :: lists) i = items[i] :: row lists i := by
        simp only [row, List.filterMap_cons, hfirst]
      rw [hrow]
      exact .cons hfirst (ih hlists)

theorem rows_columns {lists : List (List Value)} (h : lists ≠ []) : Columns lists (rows lists) := by
  have hlength : (rows lists).length = shortest lists := by simp [rows]
  refine ⟨fun items hitems => ?_, ?_, fun i t ht => ?_⟩
  · rw [hlength]
    exact shortest_le hitems
  · rw [hlength]
    exact exists_length_eq_shortest h
  · have hi : i < shortest lists := by
      obtain ⟨hi, -⟩ := List.getElem?_eq_some_iff.1 ht
      rwa [hlength] at hi
    have hrow : row lists i = t := by simpa [rows, hi] using ht
    rw [← hrow]
    exact row_forall₂ fun items hitems => Nat.lt_of_lt_of_le hi (shortest_le hitems)

theorem mapM_items?_eq (lists : List (Identity × List Value)) :
    (lists.map fun l => Value.list l.1 l.2).mapM Value.items? = some (lists.map (·.2)) := by
  induction lists with
  | nil => rfl
  | cons l lists ih =>
      rw [List.map_cons, List.mapM_cons, ih]
      rfl

theorem mapM_items?_eq_none {args : List Value} (h : ∃ a ∈ args, a.isList = false) :
    args.mapM Value.items? = none := by
  induction args with
  | nil => simp at h
  | cons a args ih =>
      rw [List.mapM_cons]
      cases ha : a.isList with
      | false =>
          have hnone : a.items? = none := by cases a <;> first | rfl | cases ha
          rw [hnone]
          rfl
      | true =>
          have hargs : ∃ b ∈ args, b.isList = false := by simpa [ha] using h
          rw [ih hargs]
          cases a.items? <;> rfl

end Lists

namespace Primitive

theorem call_map {p : Value} {args : List Value} (h : args ≠ []) :
    Primitive.map.call (p :: args) = Lists.mapCalls (p :: args) := by
  have hlength : 2 ≤ (p :: args).length := by
    have := List.length_pos_of_ne_nil h
    simp only [List.length_cons]
    omega
  rw [call, Arity.check, if_pos (by simpa [arity, Arity.admits] using hlength)]
  rfl

/-- What `map` asks for on a procedure and lists. -/
theorem call_map_eq_each {p : Value} {lists : List (Identity × List Value)}
    (hp : p.isProcedure = true) (h : lists ≠ []) :
    Primitive.map.call (p :: lists.map fun l => .list l.1 l.2) =
      .ok (.each p (Lists.rows (lists.map (·.2)))) := by
  rw [call_map (by simpa using h), Lists.mapCalls, if_pos hp, Lists.contents,
    Lists.mapM_items?_eq]
  rfl

/-- What `map` refuses. -/
theorem call_map_eq_error {p : Value} {args : List Value} (h : args ≠ [])
    (hrefused : p.isProcedure = false ∨ ∃ a ∈ args, a.isList = false) :
    Primitive.map.call (p :: args) =
      .error (.type (if p.isProcedure then .needsLists .map else .needsProcedure .map p) none) := by
  rw [call_map h, Lists.mapCalls]
  cases hp : p.isProcedure with
  | false => rfl
  | true =>
      have hlist : ∃ a ∈ args, a.isList = false := by simpa [hp] using hrefused
      simp [Lists.contents, Lists.mapM_items?_eq_none hlist, Except.map]

end Primitive

namespace Scoping

variable (S : Scoping σ ρ) (ev : ρ → Value → Eval σ Value)

/-- Under any way of binding names, and however bodies are evaluated: `map` of a
procedure and lists calls the procedure with the elements at each position in
order, and makes a new list of what the calls return or fails as the first of them
to fail does, with the memory that the last call made left. Without a procedure or
with an argument that is no list, wherever it stands, it asks for no call at all
and fails, and memory is as it was. -/
theorem map_pointwise (p : Value) (m : Memory σ) :
    (∀ lists : List (Identity × List Value), p.isProcedure = true → lists ≠ [] →
      ∃ tuples r n, Lists.Columns (lists.map (·.2)) tuples ∧
        InOrder (S.apply ev p) tuples m r n ∧
        Eval.runFrom m (S.apply ev (.primitive .map) (p :: lists.map fun l => .list l.1 l.2)) =
          match r with
          | .ok vs => (.ok (.list n.supply vs), ⟨n.supply + 1, n.bound⟩)
          | .error e => (.error e, n)) ∧
    (∀ args : List Value, args ≠ [] →
      (p.isProcedure = false ∨ ∃ a ∈ args, a.isList = false) →
      ∃ fault, Primitive.map.call (p :: args) = .error (.type fault none) ∧
        Eval.runFrom m (S.apply ev (.primitive .map) (p :: args)) =
          (.error (.type fault none), m)) := by
  constructor
  · intro lists hp hlists
    have hne : lists.map (·.2) ≠ [] := by simpa using hlists
    have horder := inOrder_mapM (S.apply ev p) (Lists.rows (lists.map (·.2))) m
    rw [apply_primitive, Primitive.call_map_eq_each hp hlists, Eval.ofExcept, pure_bind, perform,
      Eval.runFrom_bind]
    generalize Eval.runFrom m ((Lists.rows (lists.map (·.2))).mapM (S.apply ev p)) = run at horder ⊢
    obtain ⟨r, n⟩ := run
    refine ⟨_, r, n, Lists.rows_columns hne, horder, ?_⟩
    cases r with
    | error e => rfl
    | ok vs => exact Eval.runFrom_list n vs
  · intro args hargs hrefused
    have hcall := Primitive.call_map_eq_error hargs hrefused
    refine ⟨_, hcall, ?_⟩
    rw [apply_primitive, hcall]
    rfl

/-- `map` of `car` over `((1) ())`, which fails at its second call, and over a list
and a number. -/
theorem map_pointwise_car :
    let lists : List (Identity × List Value) := [(2, [.list 0 [.int 1], .list 1 []])]
    let m : Memory Heap := ⟨3, .empty⟩
    (Value.isProcedure (.primitive .car) = true ∧ lists ≠ [] ∧
      ∃ tuples r n, Lists.Columns (lists.map (·.2)) tuples ∧
        InOrder (lexical.apply (lexical.eval 5 5) (.primitive .car)) tuples m r n ∧
        Eval.runFrom m (lexical.apply (lexical.eval 5 5) (.primitive .map)
          (.primitive .car :: lists.map fun l => .list l.1 l.2)) =
          match r with
          | .ok vs => (.ok (.list n.supply vs), ⟨n.supply + 1, n.bound⟩)
          | .error e => (.error e, n)) ∧
    ((∃ a ∈ [.list 2 [], .int 4], Value.isList a = false) ∧
      ∃ fault, Primitive.map.call [.primitive .car, .list 2 [], .int 4] =
          .error (.type fault none) ∧
        Eval.runFrom (⟨3, ∅⟩ : Memory Bindings) (textual.apply (textual.eval 5 5) (.primitive .map)
          [.primitive .car, .list 2 [], .int 4]) = (.error (.type fault none), ⟨3, ∅⟩)) := by
  intro lists m
  have hlists : lists ≠ [] := by simp [lists]
  have hrefused : ∃ a ∈ [.list 2 [], .int 4], Value.isList a = false := ⟨.int 4, by simp, rfl⟩
  exact ⟨⟨rfl, hlists, (map_pointwise _ _ (.primitive .car) m).1 lists rfl hlists⟩, hrefused,
    (map_pointwise _ _ (.primitive .car) ⟨3, ∅⟩).2 _ (by simp) (.inr hrefused)⟩

end Scoping

end TwinScheme
