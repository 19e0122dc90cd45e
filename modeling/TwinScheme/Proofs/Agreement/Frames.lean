import TwinScheme.Lexical.Scoping
import TwinScheme.Proofs.Agreement.Substitution

/-!
# The frames of a run

The heap of a session begins with two frames that definitions and assignments
change, the one that binds the primitives and the one for the user, and goes on
with the frames of calls. Of a hygienic program no frame of a call ever
changes, so what a heap has in it is said by its first two frames and the list
of the others, which only grows.

`InScope` is what an environment means while that list grows: it is a chain of
calls in front of the two, and the calls in it bind exactly the names around
the place.
-/

namespace TwinScheme

namespace Environment

/-- The environment of a session. -/
def top : Environment := ⟨1, [0]⟩

theorem frames_top : top.frames = [1, 0] := rfl

theorem eq_top_of_frames {env : Environment} (h : env.frames = [1, 0]) : env = top := by
  obtain ⟨innermost, outer⟩ := env
  simp only [frames, List.cons.injEq] at h
  rw [h.1, h.2, top]

end Environment

namespace Heap

/-- The frames of a heap: the primitives, the user's definitions, and calls. -/
structure Holds (h : Heap) (primitives user : Bindings) (calls : List Bindings) : Prop where
  eq : h.frames.toList = primitives :: user :: calls

variable {h : Heap} {b₀ b₁ b : Bindings} {calls : List Bindings} {x y : String} {v : Value}

namespace Holds

theorem frame_zero (hh : h.Holds b₀ b₁ calls) : h.frame 0 = b₀ := by
  rw [frame, ← Array.getElem?_toList, hh.eq]
  rfl

theorem frame_one (hh : h.Holds b₀ b₁ calls) : h.frame 1 = b₁ := by
  rw [frame, ← Array.getElem?_toList, hh.eq]
  rfl

theorem frame_call (hh : h.Holds b₀ b₁ calls) (i : Nat) :
    h.frame (i + 2) = calls[i]?.getD ∅ := by
  rw [frame, ← Array.getElem?_toList, hh.eq]
  rfl

theorem size (hh : h.Holds b₀ b₁ calls) : h.frames.size = calls.length + 2 := by
  rw [← Array.length_toList, hh.eq]
  rfl

theorem find?_top (hh : h.Holds b₀ b₁ calls) (x : String) :
    h.find? .top x = (b₁.get? x).or (b₀.get? x) := by
  rw [find?_eq_findSome?, Environment.frames_top, List.findSome?_cons, List.findSome?_cons,
    hh.frame_zero, hh.frame_one]
  cases b₁.get? x <;> cases b₀.get? x <;> rfl

theorem write_zero (hh : h.Holds b₀ b₁ calls) :
    (h.write 0 x v).Holds (b₀.insert x v) b₁ calls := by
  constructor
  rw [write, Array.toList_modify, hh.eq]
  rfl

theorem write_one (hh : h.Holds b₀ b₁ calls) :
    (h.write 1 x v).Holds b₀ (b₁.insert x v) calls := by
  constructor
  rw [write, Array.toList_modify, hh.eq]
  rfl

theorem push (hh : h.Holds b₀ b₁ calls) : (h.push b).Holds b₀ b₁ (calls ++ [b]) := by
  constructor
  rw [Heap.push, Array.toList_push, hh.eq]
  rfl

/-- A definition at the top changes the meaning of its name there. -/
theorem define_top (hh : h.Holds b₀ b₁ calls) : ∃ b₁',
    (h.define .top x v).Holds b₀ b₁' calls ∧
      ∀ y, (h.define .top x v).find? .top y = if y = x then some v else h.find? .top y := by
  refine ⟨_, hh.write_one, fun y => ?_⟩
  have hdefine : h.define .top x v = h.write 1 x v := rfl
  rw [hdefine, hh.write_one.find?_top, hh.find?_top, Bindings.get?_insert]
  split <;> rfl

/-- So does an assignment to a name that means something there. -/
theorem overwrite_top (hh : h.Holds b₀ b₁ calls) (hx : (h.find? .top x).isSome = true) :
    ∃ b₀' b₁', (h.overwrite .top x v).Holds b₀' b₁' calls ∧
      ∀ y, (h.overwrite .top x v).find? .top y =
        if y = x then some v else h.find? .top y := by
  rw [hh.find?_top] at hx
  have hholder : h.holder? .top x =
      if (b₁.get? x).isSome then some 1 else if (b₀.get? x).isSome then some 0 else none := by
    rw [holder?, Environment.frames_top, List.find?_cons, List.find?_cons, hh.frame_zero,
      hh.frame_one]
    cases h₁ : b₁.get? x <;> cases h₀ : b₀.get? x <;> simp [Bindings.contains, h₁, h₀]
  cases h₁ : b₁.get? x with
  | some u =>
      have hover : h.overwrite .top x v = h.write 1 x v := by
        rw [overwrite, hholder, h₁]
        rfl
      rw [hover]
      refine ⟨_, _, hh.write_one, fun y => ?_⟩
      rw [hh.write_one.find?_top, hh.find?_top, Bindings.get?_insert]
      split <;> rfl
  | none =>
      rw [h₁, Option.none_or] at hx
      have hover : h.overwrite .top x v = h.write 0 x v := by
        rw [overwrite, hholder, h₁, hx]
        rfl
      rw [hover]
      refine ⟨_, _, hh.write_zero, fun y => ?_⟩
      rw [hh.write_zero.find?_top, hh.find?_top, Bindings.get?_insert]
      split
      · next hy => rw [hy, h₁, Option.none_or]
      · rfl

end Holds

end Heap

/-! ## Environments -/

/-- The calls an environment goes through bind the parameters around a place,
and those only. -/
structure InScope (kept : List String) (calls : List Bindings) (s : Scope) (env : Environment)
    (ρ : Locals) : Prop where
  chain : ∃ is : List Nat, env.frames = is.map (· + 2) ++ [1, 0] ∧
    (∀ i ∈ is, i < calls.length) ∧ (s = .outermost → is = []) ∧
    ∀ x, ρ x = is.findSome? fun i => (calls[i]?.getD ∅).get? x
  domain : ∀ x, (ρ x).isSome = true ↔ x ∈ s.binders
  binder : ∀ x ∈ s.binders, Binder kept x

namespace InScope

variable {kept : List String} {calls calls' : List Bindings} {s : Scope} {env : Environment}
  {ρ : Locals} {x : String} {v : Value} {h : Heap} {b₀ b₁ : Bindings}

theorem top : InScope kept calls .outermost .top fun _ => none where
  chain := ⟨[], rfl, by simp, fun _ => rfl, fun _ => rfl⟩
  domain _ := by simp [Scope.binders]
  binder _ hx := by cases hx

theorem mono (hs : InScope kept calls s env ρ) (hle : calls <+: calls') :
    InScope kept calls' s env ρ := by
  obtain ⟨⟨is, hframes, hlt, houter, hρ⟩, hdomain, hbinder⟩ := hs
  refine ⟨⟨is, hframes, fun i hi => ?_, houter, fun x => ?_⟩, hdomain, hbinder⟩
  · exact Nat.lt_of_lt_of_le (hlt i hi) hle.length_le
  · rw [hρ x]
    obtain ⟨more, rfl⟩ := hle
    clear hρ hframes houter
    induction is with
    | nil => rfl
    | cons i is ih =>
        rw [List.findSome?_cons, List.findSome?_cons,
          List.getElem?_append_left (hlt i List.mem_cons_self),
          ih fun j hj => hlt j (List.mem_cons_of_mem _ hj)]

theorem free (hs : InScope kept calls s env ρ) (hx : x ∉ s.binders) : ρ x = none := by
  have hdomain := hs.domain x
  cases h : ρ x with
  | none => rfl
  | some v => exact absurd (hdomain.1 (by rw [h]; rfl)) hx

theorem free_keyword (hs : InScope kept calls s env ρ) (k : Keyword) : ρ k.name = none :=
  hs.free fun hk => (hs.binder _ hk).ne_keyword k rfl

theorem eq_top (hs : InScope kept calls .outermost env ρ) : env = .top := by
  obtain ⟨is, hframes, -, houter, -⟩ := hs.chain
  cases houter rfl
  exact Environment.eq_top_of_frames hframes

/-- A name is looked up among the parameters first and at the top then. -/
theorem find?_eq (hs : InScope kept calls s env ρ) (hh : h.Holds b₀ b₁ calls) (x : String) :
    h.find? env x = (ρ x).or (h.find? .top x) := by
  obtain ⟨is, hframes, -, -, hρ⟩ := hs.chain
  have hcalls : ((fun i => (h.frame i).get? x) ∘ (· + 2)) =
      fun i => (calls[i]?.getD ∅).get? x := by
    funext i
    rw [Function.comp, hh.frame_call]
  rw [Heap.find?_eq_findSome?, Heap.find?_eq_findSome?, hframes, List.findSome?_append,
    List.findSome?_map, hcalls, hρ]
  rfl

theorem find?_bound (hs : InScope kept calls s env ρ) (hh : h.Holds b₀ b₁ calls)
    (hx : ρ x = some v) : Scoping.lexical.find? h env x = some v := by
  show h.find? env x = _
  rw [hs.find?_eq hh, hx, Option.some_or]

theorem find?_free (hs : InScope kept calls s env ρ) (hh : h.Holds b₀ b₁ calls)
    (hx : ρ x = none) : Scoping.lexical.find? h env x = h.find? .top x := by
  show h.find? env x = _
  rw [hs.find?_eq hh, hx, Option.none_or]

/-- A name that is no parameter is assigned to at the top. -/
theorem overwrite_eq (hs : InScope kept calls s env ρ) (hh : h.Holds b₀ b₁ calls)
    (hx : ρ x = none) : h.overwrite env x v = h.overwrite .top x v := by
  obtain ⟨is, hframes, -, -, hρ⟩ := hs.chain
  have hnone : (is.map (· + 2)).find? (fun i => (h.frame i).contains x) = none := by
    rw [hρ, List.findSome?_eq_none_iff] at hx
    rw [List.find?_eq_none]
    intro j hj
    obtain ⟨i, hi, rfl⟩ := List.mem_map.1 hj
    rw [hh.frame_call, Bindings.contains, hx i hi]
    simp
  have hholder : h.holder? env x = h.holder? .top x := by
    rw [Heap.holder?, hframes, List.find?_append, hnone]
    rfl
  rw [Heap.overwrite, Heap.overwrite, hholder]

theorem extend (hs : InScope kept calls s env ρ) {params : List String} {args : List Value}
    (hparams : s.Admits kept params) (hlen : params.length = args.length) :
    InScope kept (calls ++ [Lexical.frame params args]) (s.enter params)
      ⟨calls.length + 2, env.frames⟩ (ρ.bind (params.zip args)) where
  chain := by
    obtain ⟨is, hframes, hlt, -, hρ⟩ := (hs.mono (List.prefix_append calls [_])).chain
    refine ⟨calls.length :: is, ?_, ?_, ?_, ?_⟩
    · show (calls.length + 2) :: env.frames = _
      rw [hframes]
      rfl
    · intro i hi
      rcases List.mem_cons.1 hi with rfl | hi
      · simp
      · exact hlt i hi
    · intro houter
      cases houter
    · intro x
      rw [Locals.bind_apply, hρ, List.findSome?_cons, List.getElem?_concat_length,
        Option.getD_some, Lexical.get?_frame]
      cases Locals.bind (fun _ => none) (params.zip args) x <;> rfl
  domain x := by
    rw [Locals.isSome_bind_zip ρ hlen, hs.domain, Scope.enter, Scope.binders, List.mem_append]
  binder x hx := by
    rcases List.mem_append.1 hx with hx | hx
    · exact hparams.binder x hx
    · exact hs.binder x hx

end InScope

end TwinScheme
