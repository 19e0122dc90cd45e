import TwinScheme.Proofs.Lexical.Foundation

/-!
# Handles that share frames

Two environments may have frames in common, and then what is done through one
of them shows through the other. A definition goes to the innermost frame of its
handle, and every handle sees it that meets that frame before any other that
binds the name. An assignment goes to the frame in which its handle finds the
name, wherever in the chain that is, and every handle sees it that finds the
name in the same frame.

Both are one write to one frame, and `find?_write` says what a write does to a
look-up through any chain at all: nothing is assumed of the chain, so handles
in front of each other, beside each other and with the name shadowed in between
need no separate argument.
-/

namespace TwinScheme

namespace Heap

variable {h : Heap} {env : Environment} {i : Nat} {x : String} {v : Value}

/-! ## One write -/

/-- A write leaves every other name as it is, in every frame. -/
theorem get?_frame_write_of_ne {y : String} (hy : y ≠ x) (j : Nat) :
    ((h.write i x v).frame j).get? y = (h.frame j).get? y := by
  by_cases hij : i = j
  · subst hij
    by_cases hi : i < h.frames.size
    · rw [frame_write_self hi, Bindings.get?_insert, if_neg hy]
    · have hle : h.frames.size ≤ i := Nat.le_of_not_lt hi
      rw [frame_of_size_le (by rwa [size_write]), frame_of_size_le hle]
  · rw [frame_write_of_ne hij]

/-- After a write to a frame that is there, the frame binds the name. -/
theorem get?_frame_write_self (hi : i < h.frames.size) :
    ((h.write i x v).frame i).get? x = some v := by
  rw [frame_write_self hi, Bindings.get?_insert, if_pos rfl]

/-- What is unbound after a write was unbound before. -/
theorem get?_eq_none_of_frame_write {j : Nat} {y : String}
    (hy : ((h.write i x v).frame j).get? y = none) : (h.frame j).get? y = none := by
  by_contra hbound
  have hcontains : ((h.write i x v).frame j).contains y = true :=
    contains_frame_write (Option.isSome_iff_ne_none.2 hbound)
  rw [Bindings.contains, hy] at hcontains
  cases hcontains

/-- What a write to a frame does to every look-up: a chain that now finds the
name in this frame finds the new value, and nothing else changes. -/
theorem find?_write (h : Heap) (i : Nat) (x : String) (v : Value) (env : Environment)
    (y : String) :
    (h.write i x v).find? env y =
      if y = x ∧ (h.write i x v).holder? env x = some i then some v else h.find? env y := by
  by_cases hy : y = x
  · subst hy
    rw [find?_eq_findSome?, find?_eq_findSome?, holder?]
    -- along the chain, up to the first frame that binds the name now
    induction env.frames with
    | nil => exact (if_neg fun hall => nomatch hall.2).symm
    | cons j rest ih =>
        rw [List.findSome?_cons, List.findSome?_cons, List.find?_cons]
        cases hj : ((h.write i y v).frame j).get? y with
        | none =>
            have hfree : ((h.write i y v).frame j).contains y = false := by
              rw [Bindings.contains, hj]
              rfl
            rw [hfree, get?_eq_none_of_frame_write hj]
            exact ih
        | some w =>
            have hbound : ((h.write i y v).frame j).contains y = true := by
              rw [Bindings.contains, hj]
              rfl
            rw [hbound]
            by_cases hij : i = j
            · subst hij
              have hi : i < h.frames.size := size_write h i y v ▸ lt_size_of_contains hbound
              rw [get?_frame_write_self hi] at hj
              exact hj.symm.trans (if_pos ⟨rfl, rfl⟩).symm
            · rw [frame_write_of_ne hij] at hj
              rw [hj]
              exact (if_neg fun hall => hij (Option.some.inj hall.2).symm).symm
  · have hget : ∀ j, ((h.write i x v).frame j).get? y = (h.frame j).get? y :=
      get?_frame_write_of_ne hy
    rw [if_neg fun hall => hy hall.1, find?_eq_findSome?, find?_eq_findSome?]
    simp only [hget]

/-- A name that a frame binds already is bound in the same frames after a write. -/
theorem contains_frame_write_of_contains (hx : (h.frame i).contains x = true) (j : Nat)
    (y : String) : ((h.write i x v).frame j).contains y = (h.frame j).contains y := by
  refine Bool.eq_iff_iff.2 ⟨fun hy => ?_, contains_frame_write⟩
  rcases of_contains_frame_write hy with ⟨rfl, rfl⟩ | hy
  · exact hx
  · exact hy

theorem contains_of_holder? (hi : h.holder? env x = some i) : (h.frame i).contains x = true :=
  List.find?_some (p := fun i => (h.frame i).contains x) hi

/-- A name means something where some frame of the chain binds it. -/
theorem isSome_find? (h : Heap) (env : Environment) (x : String) :
    (h.find? env x).isSome = (h.holder? env x).isSome := by
  cases hi : h.holder? env x with
  | none => rw [find?, hi]; rfl
  | some i =>
      have hbound : ((h.frame i).get? x).isSome = true := contains_of_holder? hi
      rw [find?, hi]
      exact hbound

/-! ## The laws -/

/-- What a definition through a handle comes to, in the heap `h'` that it leaves. -/
structure Defines (h : Heap) (env : Environment) (x : String) (v : Value) (h' : Heap) : Prop where
  /-- The handle now finds the name in its innermost frame. -/
  holder? : h'.holder? env x = some env.innermost
  /-- Every handle that meets this frame first has the new value, and nothing
  else changes for any handle. -/
  find? : ∀ env' y, h'.find? env' y =
    if y = x ∧ h'.holder? env' x = some env.innermost then some v else h.find? env' y

/-- What an assignment through a handle comes to, in the heap `h'` that it leaves. -/
structure Assigns (h : Heap) (env : Environment) (x : String) (v : Value) (h' : Heap) : Prop where
  /-- Every handle that finds the name in the frame in which this one finds it
  has the new value, and nothing else changes for any handle. -/
  find? : ∀ env' y, h'.find? env' y =
    if y = x ∧ h.holder? env' x = h.holder? env x then some v else h.find? env' y
  /-- No frame gains or loses a name. -/
  contains : ∀ j y, (h'.frame j).contains y = (h.frame j).contains y
  size : h'.frames.size = h.frames.size

/-- What a new frame in front of a handle comes to: the handle `inner`, in the
heap `h'`. -/
structure Extends (h : Heap) (env inner : Environment) (h' : Heap) : Prop where
  depth : inner.depth = env.depth + 1
  /-- The new handle finds every name where the old one does. -/
  holder? : ∀ x, h'.holder? inner x = h.holder? env x
  find? : ∀ x, h'.find? inner x = h.find? env x
  /-- Making the frame changes nothing for any handle. -/
  others : ∀ env' x, h'.find? env' x = h.find? env' x
  /-- No definition through the new handle, now or later, changes what the old
  one finds. -/
  apart : ∀ (later : Heap) x v y, (later.define inner x v).find? env y = later.find? env y

theorem define_defines (henv : h.Has env) (x : String) (v : Value) :
    h.Defines env x v (h.define env x v) where
  holder? := by
    have hbound : ((h.define env x v).frame env.innermost).contains x = true := by
      rw [define, Bindings.contains, get?_frame_write_self (henv _ List.mem_cons_self)]
      rfl
    rw [Heap.holder?, Environment.frames, List.find?_cons, hbound]
  find? := h.find?_write env.innermost x v

theorem overwrite_assigns (hx : (h.find? env x).isSome = true) (v : Value) :
    h.Assigns env x v (h.overwrite env x v) := by
  rw [isSome_find?] at hx
  obtain ⟨i, hi⟩ := Option.isSome_iff_exists.1 hx
  have hbound : (h.frame i).contains x = true := contains_of_holder? hi
  have hholder : ∀ env', (h.write i x v).holder? env' x = h.holder? env' x := by
    intro env'
    simp only [Heap.holder?, contains_frame_write_of_contains hbound]
  rw [overwrite, hi]
  refine ⟨fun env' y => ?_, contains_frame_write_of_contains hbound, size_write h i x v⟩
  rw [find?_write, hholder, hi]

/-- An empty frame more makes no difference to any frame. -/
theorem frame_push_empty (h : Heap) (j : Nat) : (h.push ∅).frame j = h.frame j := by
  by_cases hj : j = h.frames.size
  · subst hj
    rw [frame_push_self, frame_of_size_le (Nat.le_refl _)]
  · exact frame_push_of_ne hj

/-- A frame that is not in a chain may be defined in unseen. -/
theorem find?_write_of_not_mem (hmem : i ∉ env.frames) (y : String) :
    (h.write i x v).find? env y = h.find? env y := by
  rw [find?_write, if_neg fun hall => hmem (List.mem_of_find?_eq_some hall.2)]

theorem extend_extends (henv : h.Has env) :
    h.Extends env (h.extend env ∅).1 (h.extend env ∅).2 where
  depth := rfl
  holder? x := by
    have hnew : ¬(h.frame h.frames.size).contains x = true := by
      rw [frame_of_size_le (Nat.le_refl _)]
      nofun
    simp only [Heap.holder?, extend, frame_push_empty]
    exact List.find?_cons_of_neg hnew
  find? x := by
    have hnew : (h.frame h.frames.size).get? x = none := by
      rw [frame_of_size_le (Nat.le_refl _)]
      rfl
    simp only [find?_eq_findSome?, extend, frame_push_empty]
    exact List.findSome?_cons_of_isNone (by rw [hnew]; rfl)
  others env' x := by
    simp only [find?_eq_findSome?, extend, frame_push_empty]
  apart later x v y :=
    find?_write_of_not_mem (fun hmem => Nat.lt_irrefl _ (henv _ hmem)) y

end Heap

namespace Scoping

/-- An assignment succeeds where the name means something, and leaves everything
as it was where it does not. -/
theorem runFrom_assign_lexical (m : Memory Heap) (env : Environment) (x : String) (v : Value) :
    Eval.runFrom m (Scoping.lexical.assign env x v) =
      if (m.bound.find? env x).isSome then (.ok (), ⟨m.supply, m.bound.overwrite env x v⟩)
      else (.error (.unbound x), m) := by
  have hfind : Scoping.lexical.find? m.bound env x = m.bound.find? env x := rfl
  rw [assign, Eval.runFrom_bind, runFrom_resolve, hfind]
  cases m.bound.find? env x with
  | none => rfl
  | some w => exact Eval.runFrom_rebind m _

/-- What definitions, assignments and new frames through one handle are for every
handle. -/
theorem handles_share (m : Memory Heap) {env : Environment} (henv : m.bound.Has env)
    (x : String) (v : Value) :
    m.bound.Defines env x v (m.bound.define env x v) ∧
    (if (m.bound.find? env x).isSome then
      ∃ h, Eval.runFrom m (Scoping.lexical.assign env x v) = (.ok (), ⟨m.supply, h⟩) ∧
        m.bound.Assigns env x v h
    else Eval.runFrom m (Scoping.lexical.assign env x v) = (.error (.unbound x), m)) ∧
    m.bound.Extends env (m.bound.extend env ∅).1 (m.bound.extend env ∅).2 := by
  refine ⟨Heap.define_defines henv x v, ?_, Heap.extend_extends henv⟩
  rw [runFrom_assign_lexical]
  by_cases hx : (m.bound.find? env x).isSome = true
  · rw [if_pos hx, if_pos hx]
    exact ⟨_, rfl, Heap.overwrite_assigns hx v⟩
  · rw [if_neg hx, if_neg hx]

/-- Two handles beside each other in front of a third: an assignment through the one
that does not bind the name is seen by the third, and not by the one that does. -/
theorem handles_share_siblings :
    let outer : Bindings := Bindings.empty.insert "x" (.int 1)
    let shadow : Bindings := Bindings.empty.insert "x" (.int 2)
    let m : Memory Heap := ⟨0, ⟨#[outer, ∅, shadow]⟩⟩
    m.bound.Has ⟨1, [0]⟩ ∧
      ∃ h, Eval.runFrom m (Scoping.lexical.assign ⟨1, [0]⟩ "x" (.int 3)) = (.ok (), ⟨0, h⟩) ∧
        h.find? ⟨0, []⟩ "x" = some (.int 3) ∧ h.find? ⟨2, [0]⟩ "x" = some (.int 2) := by
  intro outer shadow m
  have henv : m.bound.Has ⟨1, [0]⟩ := by unfold Heap.Has; decide
  obtain ⟨-, hassign, -⟩ := handles_share m henv "x" (.int 3)
  have hbound : (m.bound.find? ⟨1, [0]⟩ "x").isSome = true := rfl
  rw [if_pos hbound] at hassign
  obtain ⟨h, hrun, hlaws⟩ := hassign
  refine ⟨henv, h, hrun, ?_, ?_⟩
  · rw [hlaws.find?]
    exact if_pos ⟨rfl, rfl⟩
  · rw [hlaws.find?]
    exact (if_neg fun hall => nomatch hall.2).trans rfl

end Scoping

end TwinScheme
