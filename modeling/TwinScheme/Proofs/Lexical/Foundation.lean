import TwinScheme.Proofs.Lexical.Footprint

/-!
# What every environment stands on

A top-level environment is two frames: one for definitions, and behind it one
that binds the constants and the primitive procedures. Whatever is evaluated in
it, every environment that comes to be is those two frames with others in front,
each younger than those behind it. So no definition ever goes to the frame of
the primitives, since that frame is innermost nowhere; an assignment may
overwrite what is bound there, and binds no other name.

This is kept as one property of the closures in the frames from the two on. What
other frames there are, from earlier uses of the heap, makes no difference.
-/

namespace TwinScheme

/-- A chain of frames in front of a top-level environment, the youngest first. -/
structure Environment.StandsOn (base size : Nat) (env : Environment) : Prop where
  /-- The last two frames are the one for definitions and that of the primitives. -/
  ends : [base + 1, base] <:+ env.frames
  descends : env.frames.Pairwise (· > ·)
  exists_frame : ∀ i ∈ env.frames, i < size

namespace Environment.StandsOn

variable {base size size' : Nat} {env : Environment}

theorem mono (h : env.StandsOn base size) (hle : size ≤ size') : env.StandsOn base size' :=
  ⟨h.ends, h.descends, fun i hi => Nat.lt_of_lt_of_le (h.exists_frame i hi) hle⟩

theorem base_le (h : env.StandsOn base size) {i : Nat} (hi : i ∈ env.frames) : base ≤ i := by
  obtain ⟨before, hbefore⟩ := h.ends
  have hdescends := hbefore ▸ h.descends
  rw [← hbefore, List.mem_append] at hi
  rcases hi with hi | hi
  · exact Nat.le_of_lt ((List.pairwise_append.1 hdescends).2.2 i hi base (by simp))
  · rcases List.mem_pair.1 hi with rfl | rfl
    · exact Nat.le_succ base
    · exact Nat.le_refl i

/-- Nothing is ever defined in the frame of the primitives. -/
theorem innermost_ne (h : env.StandsOn base size) : env.innermost ≠ base := by
  rintro rfl
  have hlt : ∀ i ∈ env.outer, i < env.innermost := (List.pairwise_cons.1 h.descends).1
  rcases List.suffix_cons_iff.1 (show _ <:+ env.innermost :: env.outer from h.ends) with heq | hs
  · exact absurd (List.cons.inj heq).1 (Nat.succ_ne_self _)
  · exact Nat.lt_irrefl _ (hlt env.innermost (hs.subset (by simp)))

/-- A new frame in front. -/
theorem extend (h : env.StandsOn base size) :
    (Environment.mk size env.frames).StandsOn base (size + 1) where
  ends := h.ends.trans (List.suffix_cons size env.frames)
  descends := List.pairwise_cons.2 ⟨h.exists_frame, h.descends⟩
  exists_frame := List.forall_mem_cons.2
    ⟨Nat.lt_succ_self size, (h.mono (Nat.le_succ size)).exists_frame⟩

end Environment.StandsOn

/-- The names of the constants and the primitive procedures. -/
def builtinNames : List String :=
  builtins.map (·.1)

theorem Bindings.contains_insert (b : Bindings) (x y : String) (v : Value) :
    (b.insert x v).contains y = true ↔ y = x ∨ b.contains y = true := by
  rw [contains, get?_insert]
  split
  · next h => exact iff_of_true rfl (.inl h)
  · next h => exact (or_iff_right h).symm

theorem contains_insertAll_builtins (x : String) :
    (Bindings.empty.insertAll builtins).contains x = true ↔ x ∈ builtinNames := by
  rw [Bindings.contains, get?_insertAll_builtins, Option.isSome_iff_ne_none, builtin?_ne_none_iff,
    builtinNames]

/-- A heap with the frame of the primitives at some place, and all that was made
there since. -/
structure Heap.Founded (base : Nat) (h : Heap) : Prop where
  names : ∀ x, (h.frame base).contains x = true ↔ x ∈ builtinNames
  guarded : ∀ i, base ≤ i → ∀ x v, (h.frame i).get? x = some v →
    v.Closures fun _ _ env => env.StandsOn base h.frames.size

theorem Heap.of_contains_frame_write {h : Heap} {i j : Nat} {x y : String} {v : Value}
    (hy : ((h.write i x v).frame j).contains y = true) :
    (j = i ∧ y = x) ∨ (h.frame j).contains y = true := by
  by_cases hij : i = j
  · subst hij
    by_cases hi : i < h.frames.size
    · rw [frame_write_self hi, Bindings.contains_insert] at hy
      exact hy.imp_left fun hyx => ⟨rfl, hyx⟩
    · exact absurd (size_write h i x v ▸ lt_size_of_contains hy) hi
  · rw [frame_write_of_ne hij] at hy
    exact .inr hy

namespace Heap.Founded

variable {base i : Nat} {h : Heap} {env : Environment} {x : String} {v : Value}

theorem base_lt (hh : h.Founded base) : base < h.frames.size :=
  lt_size_of_contains ((hh.names "#t").2 (List.mem_map_of_mem List.mem_cons_self))

/-- A write that gives the frame of the primitives no other name. -/
theorem write (hh : h.Founded base) (hx : i = base → x ∈ builtinNames)
    (hv : v.Closures fun _ _ env => env.StandsOn base h.frames.size) :
    (h.write i x v).Founded base where
  names y := by
    refine ⟨fun hy => ?_, fun hy => contains_frame_write ((hh.names y).2 hy)⟩
    rcases of_contains_frame_write hy with ⟨rfl, rfl⟩ | hy
    · exact hx rfl
    · exact (hh.names y).1 hy
  guarded j hj y w hw := by
    rw [size_write]
    rcases get?_frame_write hw with rfl | hw
    · exact hv
    · exact hh.guarded j hj y w hw

theorem define (hh : h.Founded base) (henv : env.StandsOn base h.frames.size)
    (hv : v.Closures fun _ _ env => env.StandsOn base h.frames.size) :
    (h.define env x v).Founded base :=
  hh.write (fun hbase => absurd hbase henv.innermost_ne) hv

/-- An assignment in the frame of the primitives is to a name that is there. -/
theorem overwrite (hh : h.Founded base) (hx : h.find? env x ≠ none)
    (hv : v.Closures fun _ _ env => env.StandsOn base h.frames.size) :
    (h.overwrite env x v).Founded base := by
  obtain ⟨i, -, hcontains, heq⟩ := Heap.exists_overwrite_eq hx v
  rw [heq]
  refine hh.write ?_ hv
  rintro rfl
  exact (hh.names x).1 hcontains

theorem push (hh : h.Founded base) {b : Bindings}
    (hb : ∀ x v, b.get? x = some v →
      v.Closures fun _ _ env => env.StandsOn base h.frames.size) :
    (h.push b).Founded base where
  names y := by
    rw [frame_push_of_ne (Nat.ne_of_lt hh.base_lt)]
    exact hh.names y
  guarded j hj y w hw := by
    rw [size_push]
    refine Value.Closures.mono (P := fun _ _ env => env.StandsOn base h.frames.size) ?_
      fun _ _ _ henv => henv.mono (Nat.le_succ _)
    by_cases hjs : j = h.frames.size
    · rw [hjs, frame_push_self] at hw
      exact hb y w hw
    · rw [frame_push_of_ne hjs] at hw
      exact hh.guarded j hj y w hw

end Heap.Founded

theorem Heap.size_topLevel (h : Heap) : h.topLevel.2.frames.size = h.frames.size + 2 := by
  rw [topLevel, extend]
  dsimp only
  rw [size_push, size_push]

theorem Heap.frames_topLevel (h : Heap) :
    h.topLevel.1.frames = [h.frames.size + 1, h.frames.size] := by
  rw [topLevel, extend]
  dsimp only [Environment.frames]
  rw [size_push]

theorem Heap.topLevel_standsOn (h : Heap) :
    h.topLevel.1.StandsOn h.frames.size h.topLevel.2.frames.size where
  ends := h.frames_topLevel ▸ List.suffix_refl _
  descends := by
    rw [h.frames_topLevel]
    exact List.pairwise_pair.2 (Nat.lt_succ_self _)
  exists_frame i hi := by
    rw [h.frames_topLevel, List.mem_pair] at hi
    rw [h.size_topLevel]
    omega

/-- A new top-level environment binds the primitives, and nothing was made in it. -/
theorem Heap.topLevel_founded (h : Heap) : h.topLevel.2.Founded h.frames.size := by
  have hbase : h.topLevel.2.frame h.frames.size = Bindings.empty.insertAll builtins := by
    rw [topLevel, extend]
    dsimp only
    rw [frame_push_of_ne (by rw [size_push]; exact Nat.ne_of_lt (Nat.lt_succ_self _)),
      frame_push_self]
  refine ⟨fun x => ?_, fun i hi x v hv => ?_⟩
  · rw [hbase, contains_insertAll_builtins]
  · by_cases hi0 : i = h.frames.size
    · rw [hi0, hbase] at hv
      rcases of_get?_builtins hv with ⟨b, rfl⟩ | ⟨p, rfl⟩
      · exact .bool b
      · exact .primitive p
    · by_cases hi1 : i = h.frames.size + 1
      · have hempty : h.topLevel.2.frame i = ∅ := by
          rw [hi1, topLevel, extend]
          dsimp only
          rw [← size_push h (Bindings.empty.insertAll builtins), frame_push_self]
        rw [hempty] at hv
        cases hv
      · rw [frame_of_size_le (by rw [h.size_topLevel]; omega)] at hv
        cases hv

/-! ## Evaluation keeps it -/

/-- A run in a top-level environment. -/
def foundation (base : Nat) : Invariant where
  World := Nat
  le := (· ≤ ·)
  le_refl := Nat.le_refl
  le_trans := Nat.le_trans
  procedure size _ _ env := env.StandsOn base size
  procedure_mono hle h := h.mono hle
  memory size m := m.bound.frames.size = size ∧ m.bound.Founded base
  code size env e := env.StandsOn base size ∧ e.Closures fun _ _ env => env.StandsOn base size
  error _ := True

theorem foundation_form {base size : Nat} {env : Environment} {f : Form}
    (henv : env.StandsOn base size) (hf : f.Closures fun _ _ env => env.StandsOn base size) :
    (foundation base).FormCode size env f := by
  refine .of_closures (fun e he => ⟨henv, he⟩) (fun _ _ => henv) (fun x k m a hle hm ha => ?_)
    (fun x k m a hle hm ha => ?_) hf
  · obtain ⟨rfl, hfounded⟩ := hm
    exact ⟨_, Nat.le_refl _, Heap.size_write _ _ _ _, hfounded.define (henv.mono hle) ha⟩
  · obtain ⟨rfl, hfounded⟩ := hm
    split
    · next hx =>
      have hne : m.bound.find? env x ≠ none := by rw [hx]; nofun
      obtain ⟨i, -, -, heq⟩ := Heap.exists_overwrite_eq hne a
      exact ⟨_, Nat.le_refl _, by rw [heq, Heap.size_write], hfounded.overwrite hne ha⟩
    · trivial

theorem foundation_lawful (base : Nat) : (foundation base).Lawful where
  code_mono hle h := ⟨h.1.mono hle, h.2.mono fun _ _ _ henv => henv.mono hle⟩
  error _ := trivial
  supply hm _ := hm
  value h _ := h.2
  symbol {size env x m} h hm := by
    obtain ⟨rfl, hfounded⟩ := hm
    split
    · next hx =>
      obtain ⟨i, hi, hv⟩ := Heap.exists_of_find? hx
      exact hfounded.guarded i (h.1.base_le hi) x _ hv
    · trivial
  combination h _ e he := ⟨h.1, Value.Closures.list_iff.1 h.2 e he⟩
  form h _ hp :=
    foundation_form h.1 (Form.parse_closures hp
      (List.forall_mem_cons.1 (Value.Closures.list_iff.1 h.2)).2)
  enter {size params body env args m} henv hbody hargs _ hm := by
    obtain ⟨rfl, hfounded⟩ := hm
    refine ⟨_, Nat.le_succ _, ⟨Heap.size_push _ _, hfounded.push fun x v hv => ?_⟩, henv.extend,
      hbody.mono fun _ _ _ henv => henv.mono (Nat.le_succ _)⟩
    exact hargs v (Lexical.mem_of_get?_frame hv)

/-- Evaluation in an environment that stands on the two frames captures only
such environments. -/
theorem Scoping.evaluate_founded (limit : Nat) {base : Nat} {env : Environment} {expr : Value}
    {m : Memory Heap} (hm : m.bound.Founded base) (henv : env.StandsOn base m.bound.frames.size)
    (hexpr : expr.Closures fun _ _ env => env.StandsOn base m.bound.frames.size) :
    let r := Eval.runFrom m (Scoping.lexical.evaluate limit env expr)
    m.bound.frames.size ≤ r.2.bound.frames.size ∧ r.2.bound.Founded base ∧
      ∀ v ∈ r.1.toOption, v.Closures fun _ _ env => env.StandsOn base r.2.bound.frames.size := by
  have hkeeps : (foundation base).Keeps m.bound.frames.size (foundation base).value
      (Eval.runFrom m (Scoping.lexical.evaluate limit env expr)) :=
    Invariant.eval_keeps (foundation_lawful base) limit limit ⟨henv, hexpr⟩ ⟨rfl, hm⟩
  generalize Eval.runFrom m (Scoping.lexical.evaluate limit env expr) = r at hkeeps
  cases hkeeps with
  | ok hle hm ha =>
      obtain ⟨rfl, hfounded⟩ := hm
      refine ⟨hle, hfounded, ?_⟩
      rintro v ⟨⟩
      exact ha
  | error hle hm _ =>
      obtain ⟨rfl, hfounded⟩ := hm
      exact ⟨hle, hfounded, nofun⟩

/-- Whatever environment can be got at stands on the two frames, if what it is
got at from does. -/
theorem Heap.Founded.standsOn_of_reaches {base : Nat} {h : Heap} {roots : List Environment}
    {values : List Value} (hh : h.Founded base)
    (hroots : ∀ env ∈ roots, env.StandsOn base h.frames.size)
    (hvalues : ∀ v ∈ values, v.Closures fun _ _ env => env.StandsOn base h.frames.size)
    {env : Environment} (henv : h.Reaches roots values env) :
    env.StandsOn base h.frames.size := by
  induction henv with
  | root henv => exact hroots _ henv
  | value hv ho => exact hvalues _ hv _ _ _ _ ho
  | binding _ hi hv ho ih => exact hh.guarded _ (ih.base_le hi) _ _ hv _ _ _ _ ho

end TwinScheme
