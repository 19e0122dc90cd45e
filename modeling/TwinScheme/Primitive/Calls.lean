import TwinScheme.Primitive.Run

/-!
# The calls that primitives ask for

Only `map` asks for calls, and each call has arguments that are smaller than
those of `map` itself, since they are elements of its lists. So calls among
primitives come to an end: `sizeOf_lt_of_call_eq_each` is what the evaluator's
recursion through `map` rests on, also when the procedure mapped is `map`.
-/

namespace TwinScheme

namespace Lists

/-- The elements at one position weigh less than the lists they come from. -/
theorem sizeOf_row_le (args : List Value) (lists : List (List Value)) (i : Nat)
    (h : args.mapM Value.items? = some lists) : sizeOf (row lists i) ≤ sizeOf args := by
  induction args generalizing lists with
  | nil =>
    simp only [List.mapM_nil, Option.pure_def, Option.some.injEq] at h
    subst h
    simp [row]
  | cons a args ih =>
    simp only [List.mapM_cons, Option.bind_eq_bind, Option.bind_eq_some_iff, Option.pure_def,
      Option.some.injEq] at h
    obtain ⟨items, ha, rest, hr, rfl⟩ := h
    have hrest := ih rest hr
    cases a <;> simp only [Value.items?, Option.some.injEq, reduceCtorEq] at ha
    subst ha
    simp only [row, List.filterMap_cons]
    split
    · simp only [row] at hrest
      simp only [List.cons.sizeOf_spec]
      omega
    · next v hv =>
      have := List.sizeOf_lt_of_mem (List.mem_of_getElem? hv)
      simp only [row] at hrest
      simp only [List.cons.sizeOf_spec, Value.list.sizeOf_spec]
      omega

end Lists

namespace Primitive

variable {f : Value} {calls : List (List Value)}

theorem map_value_ne_each (x : Except Error Value) :
    x.map Outcome.value ≠ .ok (Outcome.each f calls) := by
  cases x <;> simp [Except.map]

theorem map_fresh_ne_each (x : Except Error (List Value)) :
    x.map Outcome.fresh ≠ .ok (Outcome.each f calls) := by
  cases x <;> simp [Except.map]

theorem unary_ne_each {g : Value → Except Error Outcome} (args : List Value)
    (h : ∀ a, g a ≠ .ok (.each f calls)) : unary g args ≠ .ok (.each f calls) := by
  unfold unary
  split
  · exact h _
  · simp

theorem binary_ne_each {g : Value → Value → Except Error Outcome} (args : List Value)
    (h : ∀ a b, g a b ≠ .ok (.each f calls)) : binary g args ≠ .ok (.each f calls) := by
  unfold binary
  split
  · exact h _ _
  · simp

/-- Only `map` asks for calls. -/
theorem eq_map_of_run_eq_each {p : Primitive} {args : List Value}
    (h : p.run args = .ok (.each f calls)) : p = .map := by
  have unaryValue : ∀ g : Value → Except Error Value,
      unary (fun a => (g a).map .value) args ≠ .ok (.each f calls) :=
    fun g => unary_ne_each args fun a => map_value_ne_each (g a)
  have binaryValue : ∀ g : Value → Value → Except Error Value,
      binary (fun a b => (g a b).map .value) args ≠ .ok (.each f calls) :=
    fun g => binary_ne_each args fun a b => map_value_ne_each (g a b)
  have tested : ∀ holds : Value → Bool, test holds args ≠ .ok (.each f calls) :=
    fun holds => unary_ne_each args fun _ => by simp
  cases p with
  | map => rfl
  | add | max | min => exact absurd h (map_value_ne_each _)
  | sub | mul | div | greater | less | atLeast | atMost | numberEqual =>
    exact absurd h (binaryValue _)
  | abs | round | car | length => exact absurd h (unaryValue _)
  | identical | equal => exact absurd h (binary_ne_each args fun _ _ => by simp)
  | cdr => exact absurd h (unary_ne_each args fun _ => map_fresh_ne_each _)
  | cons => exact absurd h (binary_ne_each args fun _ _ => map_fresh_ne_each _)
  | append =>
    cases hc : Lists.contents .append args <;> simp [run, hc, Except.map] at h
  | list => simp [run] at h
  | not | isList | isNull | isNumber | isSymbol | isProcedure => exact absurd h (tested _)

/-- The calls that `map` asks for are those of its procedure on the rows of its
lists. -/
theorem mapCalls_eq_each {args : List Value} (h : Lists.mapCalls args = .ok (.each f calls)) :
    ∃ rest lists, args = f :: rest ∧ rest.mapM Value.items? = some lists ∧
      calls = Lists.rows lists := by
  cases args with
  | nil => simp [Lists.mapCalls] at h
  | cons g rest =>
    simp only [Lists.mapCalls, Lists.contents] at h
    split at h
    · cases hm : rest.mapM Value.items? with
      | none => simp [hm, Except.map] at h
      | some lists =>
        simp only [hm, Except.map, Except.ok.injEq, Outcome.each.injEq] at h
        exact ⟨rest, lists, by rw [h.1], hm, h.2.symm⟩
    · simp at h

/-- Every call that a primitive asks for has smaller arguments than its own. -/
theorem sizeOf_lt_of_call_eq_each {p : Primitive} {args c : List Value}
    (h : p.call args = .ok (.each f calls)) (hc : c ∈ calls) : sizeOf c < sizeOf args := by
  have hrun : p.run args = .ok (.each f calls) := by
    unfold call Arity.check at h
    split at h
    · exact h
    · simp [bind, Except.bind] at h
  cases eq_map_of_run_eq_each hrun
  obtain ⟨rest, lists, rfl, hm, rfl⟩ := mapCalls_eq_each hrun
  obtain ⟨i, -, rfl⟩ := List.mem_map.1 hc
  have := Lists.sizeOf_row_le rest lists i hm
  simp only [List.cons.sizeOf_spec]
  omega

end Primitive

end TwinScheme
