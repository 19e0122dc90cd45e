import Mathlib.Logic.Function.Basic
import TwinScheme.Proofs.Evaluator.Forms
import TwinScheme.Proofs.Evaluator.Running

/-!
# Frames, one by one

A look-up through an environment asks its frames in order, and the steps of a
run touch one frame each: a write changes what one name means in one frame, a
call adds a frame that binds the parameters to the arguments, with later
bindings of a name before earlier ones.
-/

namespace TwinScheme

namespace Heap

variable {h : Heap} {i j : Nat} {x y : String} {v : Value} {b : Bindings}

theorem find?_eq_findSome? (h : Heap) (env : Environment) (x : String) :
    h.find? env x = env.frames.findSome? fun i => (h.frame i).get? x := by
  unfold find? holder?
  induction env.frames with
  | nil => rfl
  | cons i rest ih =>
      rw [List.find?_cons, List.findSome?_cons]
      cases hi : (h.frame i).get? x with
      | none => simpa [Bindings.contains, hi] using ih
      | some v => simp [Bindings.contains, hi]

theorem size_write (h : Heap) (i : Nat) (x : String) (v : Value) :
    (h.write i x v).frames.size = h.frames.size :=
  Array.size_modify

theorem size_push (h : Heap) (b : Bindings) : (h.push b).frames.size = h.frames.size + 1 :=
  Array.size_push b

theorem frame_of_size_le (hi : h.frames.size ≤ i) : h.frame i = ∅ := by
  rw [frame, Array.getElem?_eq_none hi]
  rfl

theorem frame_write_of_ne (hij : i ≠ j) : (h.write i x v).frame j = h.frame j := by
  rw [frame, write, Array.getElem?_modify, if_neg hij, frame]

theorem frame_write_self (hi : i < h.frames.size) :
    (h.write i x v).frame i = (h.frame i).insert x v := by
  rw [frame, write, Array.getElem?_modify, if_pos rfl, Array.getElem?_eq_getElem hi, frame,
    Array.getElem?_eq_getElem hi]
  rfl

/-- A write brings one value in and leaves the others where they were. -/
theorem get?_frame_write {w : Value} (hw : ((h.write i x v).frame j).get? y = some w) :
    w = v ∨ (h.frame j).get? y = some w := by
  by_cases hij : i = j
  · subst hij
    by_cases hi : i < h.frames.size
    · rw [frame_write_self hi, Bindings.get?_insert] at hw
      split at hw
      · exact .inl (Option.some.inj hw).symm
      · exact .inr hw
    · rw [frame_of_size_le (by rw [size_write]; exact Nat.le_of_not_lt hi)] at hw
      cases hw
  · rw [frame_write_of_ne hij] at hw
    exact .inr hw

theorem lt_size_of_contains (hy : (h.frame j).contains y = true) : j < h.frames.size := by
  refine Nat.lt_of_not_le fun hle => ?_
  rw [frame_of_size_le hle] at hy
  cases hy

/-- No write removes a binding. -/
theorem contains_frame_write (hy : (h.frame j).contains y = true) :
    ((h.write i x v).frame j).contains y = true := by
  by_cases hij : i = j
  · subst hij
    have hi : i < h.frames.size := lt_size_of_contains hy
    rw [frame_write_self hi, Bindings.contains, Bindings.get?_insert]
    split
    · rfl
    · exact hy
  · rw [frame_write_of_ne hij]
    exact hy

/-- Definitions and assignments write to a frame of the environment. -/
theorem exists_define_eq (h : Heap) (env : Environment) (x : String) (v : Value) :
    ∃ i ∈ env.frames, h.define env x v = h.write i x v :=
  ⟨env.innermost, List.mem_cons_self, rfl⟩

theorem exists_overwrite_eq {env : Environment} (hx : h.find? env x ≠ none) (v : Value) :
    ∃ i ∈ env.frames, (h.frame i).contains x = true ∧ h.overwrite env x v = h.write i x v := by
  unfold find? at hx
  cases hi : h.holder? env x with
  | none => exact absurd (by rw [hi]; rfl) hx
  | some i =>
      have hfound : (env.frames.find? fun i => (h.frame i).contains x) = some i := hi
      exact ⟨i, List.mem_of_find?_eq_some hfound,
        List.find?_some (p := fun i => (h.frame i).contains x) hfound, by rw [overwrite, hi]⟩

theorem exists_of_find? {env : Environment} (hx : h.find? env x = some v) :
    ∃ i ∈ env.frames, (h.frame i).get? x = some v := by
  rw [find?_eq_findSome?] at hx
  exact List.exists_of_findSome?_eq_some hx

theorem frame_push_of_ne (hj : j ≠ h.frames.size) : (h.push b).frame j = h.frame j := by
  rw [frame, push, Array.getElem?_push, if_neg hj, frame]

theorem frame_push_self : (h.push b).frame h.frames.size = b := by
  rw [frame, push, Array.getElem?_push, if_pos rfl]
  rfl

end Heap

/-! ## Bindings of parameters -/

/-- What the parameters around a place are bound to. -/
abbrev Locals := String → Option Value

/-- Binds names one after another. -/
def Locals.bind (ρ : Locals) (pairs : List (String × Value)) : Locals :=
  pairs.foldl (fun ρ pair => Function.update ρ pair.1 (some pair.2)) ρ

theorem Locals.bind_cons (ρ : Locals) (x : String) (v : Value) (pairs : List (String × Value)) :
    ρ.bind ((x, v) :: pairs) = Locals.bind (Function.update ρ x (some v)) pairs := rfl

/-- Later bindings come before what was bound around them. -/
theorem Locals.bind_apply (ρ : Locals) (pairs : List (String × Value)) (x : String) :
    ρ.bind pairs x = (Locals.bind (fun _ => none) pairs x).or (ρ x) := by
  induction pairs generalizing ρ with
  | nil => rfl
  | cons pair pairs ih =>
      have hfirst : ∀ ρ : Locals, ρ.bind (pair :: pairs) x =
          (Locals.bind (fun _ => none) pairs x).or (Function.update ρ pair.1 (some pair.2) x) :=
        fun ρ => by rw [Locals.bind_cons, ih]
      rw [hfirst, hfirst, Option.or_assoc]
      by_cases h : x = pair.1
      · subst h
        simp
      · simp [h]

/-- A call binds its parameters and nothing else. -/
theorem Locals.isSome_bind_zip (ρ : Locals) {names : List String} {values : List Value}
    (hlen : names.length = values.length) (x : String) :
    (ρ.bind (names.zip values) x).isSome = true ↔ x ∈ names ∨ (ρ x).isSome = true := by
  induction names generalizing ρ values with
  | nil => simp [Locals.bind]
  | cons name names ih =>
      obtain ⟨value, values, rfl⟩ : ∃ v vs, values = v :: vs := by
        cases values with
        | nil => cases hlen
        | cons v vs => exact ⟨v, vs, rfl⟩
      have hrest := ih (Function.update ρ name (some value)) (Nat.succ.inj hlen)
      rw [List.zip_cons_cons, Locals.bind_cons, hrest]
      by_cases h : x = name
      · subst h
        simp
      · simp [h]

theorem Locals.bind_of_not_mem (ρ : Locals) {pairs : List (String × Value)} {x : String}
    (h : x ∉ pairs.map (·.1)) : ρ.bind pairs x = ρ x := by
  induction pairs generalizing ρ with
  | nil => rfl
  | cons pair pairs ih =>
      obtain ⟨y, v⟩ := pair
      rw [List.map_cons, List.mem_cons, not_or] at h
      rw [Locals.bind_cons, ih _ h.2, Function.update_of_ne h.1]

theorem Locals.bind_of_mem (ρ : Locals) {pairs : List (String × Value)} {x : String} {v : Value}
    (hnodup : (pairs.map (·.1)).Nodup) (h : (x, v) ∈ pairs) : ρ.bind pairs x = some v := by
  induction pairs generalizing ρ with
  | nil => cases h
  | cons pair pairs ih =>
      obtain ⟨hfresh, hnodup⟩ := List.nodup_cons.1 hnodup
      rcases List.mem_cons.1 h with rfl | h
      · rw [Locals.bind_cons, Locals.bind_of_not_mem _ hfresh, Function.update_self]
      · exact ih _ hnodup h

theorem Bindings.get?_insertAll (b : Bindings) (pairs : List (String × Value)) :
    (b.insertAll pairs).get? = Locals.bind b.get? pairs := by
  induction pairs generalizing b with
  | nil => rfl
  | cons pair pairs ih =>
      obtain ⟨name, v⟩ := pair
      have hinsert : (b.insert name v).get? = Function.update b.get? name (some v) := by
        funext x
        rw [Bindings.get?_insert, Function.update_apply]
      rw [Locals.bind_cons, ← hinsert]
      exact ih (b.insert name v)

theorem Lexical.get?_frame (params : List String) (args : List Value) :
    (Lexical.frame params args).get? = Locals.bind (fun _ => none) (params.zip args) :=
  Bindings.get?_insertAll .empty _

/-- What is found was bound before or is bound now. -/
theorem Locals.mem_of_bind (ρ : Locals) {pairs : List (String × Value)} {x : String} {v : Value}
    (h : ρ.bind pairs x = some v) : ρ x = some v ∨ v ∈ pairs.map (·.2) := by
  induction pairs generalizing ρ with
  | nil => exact .inl h
  | cons pair pairs ih =>
      rw [Locals.bind_cons] at h
      rcases ih _ h with h | h
      · rw [Function.update_apply] at h
        split at h
        · exact .inr (List.mem_cons.2 (.inl (Option.some.inj h).symm))
        · exact .inl h
      · exact .inr (List.mem_cons_of_mem _ h)

/-- What a call binds is an argument of it. -/
theorem Lexical.mem_of_get?_frame {params : List String} {args : List Value} {x : String}
    {v : Value} (h : (Lexical.frame params args).get? x = some v) : v ∈ args := by
  rw [Lexical.get?_frame] at h
  rcases Locals.mem_of_bind _ h with h | h
  · cases h
  · obtain ⟨pair, hpair, rfl⟩ := List.mem_map.1 h
    exact (List.of_mem_zip hpair).2

/-! ## Names with a meaning before any definition -/

theorem mem_builtins : ∀ entry ∈ builtins, builtin? entry.1 = some entry.2 := by
  have htable : builtins.map (fun entry => builtin? entry.1) =
      builtins.map fun entry => some entry.2 := rfl
  exact List.map_inj_left.1 htable

theorem builtin?_eq_none {x : String} (h : x ∉ builtins.map (·.1)) : builtin? x = none := by
  have hprimitive : ∀ p : Primitive, x ≠ p.name := by
    rintro p rfl
    exact h (by cases p <;> decide)
  rw [builtin?, if_neg (by rintro rfl; exact h (by decide)),
    if_neg (by rintro rfl; exact h (by decide)), Option.map_eq_none_iff,
    Primitive.ofName?, List.find?_eq_none]
  intro p _ hp
  exact hprimitive p (eq_of_beq hp).symm

theorem get?_insertAll_builtins (x : String) :
    (Bindings.empty.insertAll builtins).get? x = builtin? x := by
  have hempty : Bindings.empty.get? = fun _ => none := rfl
  rw [Bindings.get?_insertAll, hempty]
  by_cases h : x ∈ builtins.map (·.1)
  · obtain ⟨⟨_, v⟩, hmem, rfl⟩ := List.mem_map.1 h
    rw [Locals.bind_of_mem _ (by decide) hmem, mem_builtins _ hmem]
  · rw [Locals.bind_of_not_mem _ h, builtin?_eq_none h]

/-- The names that mean something before any definition are those of the table. -/
theorem builtin?_ne_none_iff {x : String} :
    builtin? x ≠ none ↔ x ∈ builtins.map (·.1) := by
  refine ⟨fun h => by_contra fun hx => h (builtin?_eq_none hx), fun hx => ?_⟩
  obtain ⟨entry, hmem, rfl⟩ := List.mem_map.1 hx
  rw [mem_builtins entry hmem]
  nofun

/-- What a name means before any definition is a truth value or a primitive. -/
theorem of_get?_builtins {x : String} {v : Value}
    (h : (Bindings.empty.insertAll builtins).get? x = some v) :
    (∃ b, v = .bool b) ∨ ∃ p, v = .primitive p := by
  rw [Bindings.get?_insertAll] at h
  rcases Locals.mem_of_bind _ h with h | h
  · cases h
  · obtain ⟨pair, hpair, rfl⟩ := List.mem_map.1 h
    rcases List.mem_append.1 hpair with hpair | hpair
    · rcases List.mem_pair.1 hpair with rfl | rfl
      · exact .inl ⟨true, rfl⟩
      · exact .inl ⟨false, rfl⟩
    · obtain ⟨p, -, rfl⟩ := List.mem_map.1 hpair
      exact .inr ⟨p, rfl⟩

/-! ## Making procedures -/

theorem runFrom_procedure (m : Memory Heap) (env : Environment) (params : List String)
    (body : Value) :
    Eval.runFrom m (Scoping.lexical.procedure env (params.map .symbol) body) =
      (.ok (.closure m.supply params body env), ⟨m.supply + 1, m.bound⟩) := by
  simp only [Scoping.procedure, Scoping.lexical, Lexical.close, Form.parameterNames_symbols]
  rfl

end TwinScheme
