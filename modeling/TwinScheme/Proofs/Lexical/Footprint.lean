import TwinScheme.Proofs.Lexical.Frames
import TwinScheme.Proofs.Lexical.Invariant

/-!
# What a run can reach

A run gets at frames through environments: those it is given, and those that
closures captured. `Reaches` says which environments these are, through lists,
bodies and the bindings of frames reached before. It is about the heap as it is,
and while the run goes on the heap changes under it: closures are made, stored
in frames, even in a frame that they captured themselves, so that what is
reachable later cannot be computed from what is reachable now.

What can be kept is one-sided. Call a frame accessible if it was reachable at
the start or was made since. Every write goes to a frame of the environment at
hand or of a closure at hand, and what is written was found in an accessible
frame or made from such things; so closures in accessible frames have accessible
environments, always, and frames that are not accessible are never touched.
That is `Territory.Holds`, and it does not depend on what the old chains were,
only on their being closed in this sense at the start. The chains are recorded
whole and not frame by frame, which is what shows that nothing ever gets another
frame behind an old one.
-/

namespace TwinScheme

/-- The environments that can be got at from some environments and values. -/
inductive Heap.Reaches (h : Heap) (roots : List Environment) (values : List Value) :
    Environment → Prop
  | root {env} : env ∈ roots → Reaches h roots values env
  | value {v id params body env} : v ∈ values → Value.Occurs (.closure id params body env) v →
      Reaches h roots values env
  | binding {env i x v id params body captured} : Reaches h roots values env →
      i ∈ env.frames → (h.frame i).get? x = some v →
      Value.Occurs (.closure id params body captured) v → Reaches h roots values captured

/-- The frames that can be got at. -/
def Heap.ReachesFrame (h : Heap) (roots : List Environment) (values : List Value) (i : Nat) :
    Prop :=
  ∃ env, h.Reaches roots values env ∧ i ∈ env.frames

/-- The environments that there are, whether or not they can be got at. -/
inductive Heap.Mentions (h : Heap) (roots : List Environment) (values : List Value) :
    Environment → Prop
  | root {env} : env ∈ roots → Mentions h roots values env
  | value {v id params body env} : v ∈ values → Value.Occurs (.closure id params body env) v →
      Mentions h roots values env
  | binding {i x v id params body env} : (h.frame i).get? x = some v →
      Value.Occurs (.closure id params body env) v → Mentions h roots values env

theorem Heap.Reaches.mentions {h : Heap} {roots : List Environment} {values : List Value}
    {env : Environment} (hr : h.Reaches roots values env) : h.Mentions roots values env := by
  cases hr with
  | root henv => exact .root henv
  | value hv ho => exact .value hv ho
  | binding _ _ hv ho => exact .binding hv ho

/-- The frames of a heap that a run may get at: those at the head of some chains,
and those that it adds. -/
structure Territory where
  start : Heap
  chains : List Nat → Prop

namespace Territory

variable (T : Territory)

/-- Every frame of a chain is new, or has behind it what it had. -/
def Chain (size : Nat) (frames : List Nat) : Prop :=
  ∀ i rest, (i :: rest) <:+ frames →
    (T.start.frames.size ≤ i ∧ i < size) ∨ T.chains (i :: rest)

def Accessible (size : Nat) (i : Nat) : Prop :=
  (T.start.frames.size ≤ i ∧ i < size) ∨ ∃ rest, T.chains (i :: rest)

/-- The closures in accessible frames are of a certain kind, and all other
frames are as they were. -/
structure Holds (P : List String → Value → Environment → Prop) (size : Nat) (h : Heap) :
    Prop where
  size_eq : h.frames.size = size
  grown : T.start.frames.size ≤ size
  guarded : ∀ i, T.Accessible size i → ∀ x v, (h.frame i).get? x = some v → v.Closures P
  kept : ∀ i, ¬T.Accessible size i → h.frame i = T.start.frame i

variable {T}

theorem Chain.accessible {size i : Nat} {frames : List Nat} (h : T.Chain size frames)
    (hi : i ∈ frames) : T.Accessible size i := by
  obtain ⟨before, rest, rfl⟩ := List.append_of_mem hi
  rcases h i rest (List.suffix_append _ _) with hnew | hold
  · exact .inl hnew
  · exact .inr ⟨rest, hold⟩

theorem Chain.mono {size size' : Nat} {frames : List Nat} (h : T.Chain size frames)
    (hle : size ≤ size') : T.Chain size' frames :=
  fun i rest hs => (h i rest hs).imp_left fun hnew => ⟨hnew.1, Nat.lt_of_lt_of_le hnew.2 hle⟩

theorem Accessible.mono {size size' i : Nat} (h : T.Accessible size i) (hle : size ≤ size') :
    T.Accessible size' i :=
  h.imp_left fun hnew => ⟨hnew.1, Nat.lt_of_lt_of_le hnew.2 hle⟩

/-- A new frame in front of a chain. -/
theorem Chain.cons {size : Nat} {frames : List Nat} (h : T.Chain size frames)
    (hgrown : T.start.frames.size ≤ size) : T.Chain (size + 1) (size :: frames) := by
  intro i rest hs
  rcases List.suffix_cons_iff.1 hs with heq | hs
  · cases heq
    exact .inl ⟨hgrown, Nat.lt_succ_self _⟩
  · exact h.mono (Nat.le_succ size) i rest hs

namespace Holds

variable {P Q : List String → Value → Environment → Prop} {size i : Nat} {h : Heap}
  {env : Environment} {x : String} {v : Value}

theorem find? (hh : T.Holds P size h) (henv : T.Chain size env.frames)
    (hx : h.find? env x = some v) : v.Closures P := by
  obtain ⟨i, hi, hv⟩ := Heap.exists_of_find? hx
  exact hh.guarded i (henv.accessible hi) x v hv

theorem write (hh : T.Holds P size h) (hi : T.Accessible size i) (hv : v.Closures P) :
    T.Holds P size (h.write i x v) where
  size_eq := (Heap.size_write h i x v).trans hh.size_eq
  grown := hh.grown
  guarded j hj y w hw := by
    rcases Heap.get?_frame_write hw with rfl | hw
    · exact hv
    · exact hh.guarded j hj y w hw
  kept j hj := by
    have hij : i ≠ j := fun hij => hj (hij ▸ hi)
    rw [Heap.frame_write_of_ne hij, hh.kept j hj]

theorem define (hh : T.Holds P size h) (henv : T.Chain size env.frames) (hv : v.Closures P) :
    T.Holds P size (h.define env x v) := by
  obtain ⟨i, hi, heq⟩ := h.exists_define_eq env x v
  rw [heq]
  exact hh.write (henv.accessible hi) hv

theorem overwrite (hh : T.Holds P size h) (henv : T.Chain size env.frames)
    (hx : h.find? env x ≠ none) (hv : v.Closures P) : T.Holds P size (h.overwrite env x v) := by
  obtain ⟨i, hi, -, heq⟩ := Heap.exists_overwrite_eq hx v
  rw [heq]
  exact hh.write (henv.accessible hi) hv

theorem push (hh : T.Holds P size h)
    (hPQ : ∀ params body env, P params body env → Q params body env) {params : List String}
    {args : List Value} (hargs : ∀ a ∈ args, a.Closures Q) :
    T.Holds Q (size + 1) (h.push (Lexical.frame params args)) where
  size_eq := by rw [Heap.size_push, hh.size_eq]
  grown := Nat.le_succ_of_le hh.grown
  guarded j hj y w hw := by
    by_cases hjs : j = size
    · rw [hjs, ← hh.size_eq, Heap.frame_push_self] at hw
      exact hargs w (Lexical.mem_of_get?_frame hw)
    · rw [Heap.frame_push_of_ne (hh.size_eq ▸ hjs)] at hw
      have hold : T.Accessible size j := hj.imp_left fun hnew =>
        ⟨hnew.1, Nat.lt_of_le_of_ne (Nat.le_of_lt_succ hnew.2) hjs⟩
      exact (hh.guarded j hold y w hw).mono hPQ
  kept j hj := by
    have hjs : j ≠ size := by
      rintro rfl
      exact hj (.inl ⟨hh.grown, Nat.lt_succ_self j⟩)
    rw [Heap.frame_push_of_ne (hh.size_eq ▸ hjs)]
    exact hh.kept j fun hold => hj (hold.mono (Nat.le_succ size))

end Holds

/-! ## Evaluation stays inside -/

variable (T)

/-- A run that can get at a territory only. -/
def footprint : Invariant where
  World := Nat
  le := (· ≤ ·)
  le_refl := Nat.le_refl
  le_trans := Nat.le_trans
  procedure size _ _ env := T.Chain size env.frames
  procedure_mono hle h := h.mono hle
  memory size m := T.Holds (fun _ _ env => T.Chain size env.frames) size m.bound
  code size env e := T.Chain size env.frames ∧ e.Closures fun _ _ env => T.Chain size env.frames
  error _ := True

variable {T}

theorem footprint_form {size : Nat} {env : Environment} {f : Form}
    (henv : T.Chain size env.frames) (hf : f.Closures fun _ _ env => T.Chain size env.frames) :
    T.footprint.FormCode size env f := by
  refine .of_closures (fun e he => ⟨henv, he⟩) (fun _ _ => henv) (fun x v m a hle hm ha => ?_)
    (fun x v m a hle hm ha => ?_) hf
  · exact ⟨v, Nat.le_refl v, hm.define (henv.mono hle) ha⟩
  · split
    · next hx =>
      exact ⟨v, Nat.le_refl v, hm.overwrite (henv.mono hle) (by rw [hx]; nofun) ha⟩
    · trivial

theorem footprint_enter {size : Nat} {params : List String} {body : Value} {env : Environment}
    {args : List Value} {m : Memory Heap} (henv : T.Chain size env.frames)
    (hbody : T.footprint.value size body) (hargs : ∀ a ∈ args, T.footprint.value size a)
    (hm : T.footprint.memory size m) :
    T.footprint.memory (size + 1) ⟨m.supply, m.bound.push (Lexical.frame params args)⟩ ∧
      T.footprint.code (size + 1) ⟨m.bound.frames.size, env.frames⟩ body := by
  have hmono : ∀ (params : List String) (body : Value) (env : Environment),
      T.Chain size env.frames → T.Chain (size + 1) env.frames :=
    fun _ _ env h => h.mono (Nat.le_succ size)
  have hchain := henv.cons hm.grown
  refine ⟨hm.push hmono fun a ha => (hargs a ha).mono hmono, ?_, hbody.mono hmono⟩
  rw [hm.size_eq]
  exact hchain

theorem footprint_lawful : T.footprint.Lawful where
  code_mono hle h := ⟨h.1.mono hle, h.2.mono fun _ _ _ hc => hc.mono hle⟩
  error _ := trivial
  supply hm _ := hm
  value h _ := h.2
  symbol {w env x m} h hm := by
    split
    · next hx => exact hm.find? h.1 hx
    · trivial
  combination h _ e he := ⟨h.1, Value.Closures.list_iff.1 h.2 e he⟩
  form h _ hp :=
    footprint_form h.1 (Form.parse_closures hp
      (List.forall_mem_cons.1 (Value.Closures.list_iff.1 h.2)).2)
  enter henv hbody hargs _ hm := ⟨_, Nat.le_succ _, footprint_enter henv hbody hargs hm⟩

end Territory

/-! ## What is left of the heap -/

/-- How a run leaves a heap of which it could get at a part only. -/
structure Heap.Confined (roots : List Environment) (values : List Value) (h : Heap)
    (result : Except Error Value) (h' : Heap) : Prop where
  /-- No frame is removed. -/
  size : h.frames.size ≤ h'.frames.size
  /-- What could not be got at is as it was. -/
  unreached : ∀ i, i < h.frames.size → ¬h.ReachesFrame roots values i → h'.frame i = h.frame i
  /-- The frames behind a frame are those that were behind it. -/
  parents : ∀ env, h'.Mentions roots (values ++ result.toOption.toList) env →
    ∀ i rest, i < h.frames.size → (i :: rest) <:+ env.frames →
      ∃ env', h.Mentions roots values env' ∧ (i :: rest) <:+ env'.frames

section

variable {roots : List Environment} {values : List Value} {h : Heap}

/-- All that can be got at. -/
def Territory.reachable (h : Heap) (roots : List Environment) (values : List Value) :
    Territory where
  start := h
  chains chain := ∃ env, h.Reaches roots values env ∧ chain <:+ env.frames

theorem Heap.Reaches.chain {env : Environment} (henv : h.Reaches roots values env) (size : Nat) :
    (Territory.reachable h roots values).Chain size env.frames :=
  fun _ _ hs => .inr ⟨env, henv, hs⟩

theorem Territory.reachable_holds (h : Heap) (roots : List Environment) (values : List Value) :
    (Territory.reachable h roots values).Holds
      (fun _ _ env => (Territory.reachable h roots values).Chain h.frames.size env.frames)
      h.frames.size h where
  size_eq := rfl
  grown := Nat.le_refl _
  guarded := by
    rintro i (⟨hle, hlt⟩ | ⟨rest, env, henv, hs⟩) x v hv id params body captured ho
    · exact absurd hlt (Nat.not_lt.2 hle)
    · have hi : i ∈ env.frames := hs.subset List.mem_cons_self
      exact (henv.binding hi hv ho).chain _
  kept _ _ := rfl

theorem Territory.confined {size : Nat} {result : Except Error Value} {h' : Heap}
    (hh : (Territory.reachable h roots values).Holds
      (fun _ _ env => (Territory.reachable h roots values).Chain size env.frames) size h')
    (hr : ∀ v ∈ result.toOption, v.Closures fun _ _ env =>
      (Territory.reachable h roots values).Chain size env.frames) :
    Heap.Confined roots values h result h' where
  size := hh.size_eq ▸ hh.grown
  unreached i hi hunreached := by
    refine hh.kept i ?_
    rintro (⟨hle, -⟩ | ⟨rest, env, henv, hs⟩)
    · exact absurd hi (Nat.not_lt.2 hle)
    · exact hunreached ⟨env, henv, hs.subset List.mem_cons_self⟩
  parents := by
    have hchain : ∀ env : Environment,
        (Territory.reachable h roots values).Chain size env.frames →
        ∀ i rest, i < h.frames.size → (i :: rest) <:+ env.frames →
        ∃ env', h.Mentions roots values env' ∧ (i :: rest) <:+ env'.frames := by
      intro env henv i rest hi hs
      rcases henv i rest hs with ⟨hle, -⟩ | ⟨env', henv', hs'⟩
      · exact absurd hi (Nat.not_lt.2 hle)
      · exact ⟨env', henv'.mentions, hs'⟩
    intro env henv i rest hi hs
    cases henv with
    | root henv => exact ⟨env, .root henv, hs⟩
    | value hv ho =>
        rcases List.mem_append.1 hv with hv | hv
        · exact ⟨env, .value hv ho, hs⟩
        · exact hchain env (hr _ (Option.mem_toList.1 hv) _ _ _ _ ho) i rest hi hs
    | @binding j x v id params body _ hv ho =>
        by_cases hj : (Territory.reachable h roots values).Accessible size j
        · exact hchain env (hh.guarded j hj x v hv _ _ _ _ ho) i rest hi hs
        · rw [hh.kept j hj] at hv
          exact ⟨env, .binding hv ho, hs⟩

theorem Territory.confined_of_keeps {r : Except Error Value × Memory Heap}
    (hr : (Territory.reachable h roots values).footprint.Keeps h.frames.size
      (Territory.reachable h roots values).footprint.value r) :
    Heap.Confined roots values h r.1 r.2.bound := by
  cases hr with
  | ok hle hm ha =>
      refine Territory.confined hm ?_
      rintro v ⟨⟩
      exact ha
  | error hle hm _ => exact Territory.confined hm nofun

/-- Evaluation leaves alone what cannot be got at from its environment and its
expression. -/
theorem Scoping.evaluate_confined (limit : Nat) (env : Environment) (expr : Value)
    (m : Memory Heap) :
    Heap.Confined [env] [expr] m.bound
      (Eval.runFrom m (Scoping.lexical.evaluate limit env expr)).1
      (Eval.runFrom m (Scoping.lexical.evaluate limit env expr)).2.bound := by
  refine Territory.confined_of_keeps (Invariant.eval_keeps Territory.footprint_lawful limit limit
    ⟨(Heap.Reaches.root List.mem_cons_self).chain _, ?_⟩ (Territory.reachable_holds _ _ _))
  exact fun _ _ _ _ ho => (Heap.Reaches.value List.mem_cons_self ho).chain _

/-- A call leaves alone what cannot be got at from the procedure and its
arguments. -/
theorem Scoping.applyWithin_confined (limit : Nat) (f : Value) (args : List Value)
    (m : Memory Heap) :
    Heap.Confined [] (f :: args) m.bound
      (Eval.runFrom m (Scoping.lexical.applyWithin limit f args)).1
      (Eval.runFrom m (Scoping.lexical.applyWithin limit f args)).2.bound := by
  have hvalues : ∀ v ∈ f :: args, (Territory.reachable m.bound [] (f :: args)).footprint.value
      m.bound.frames.size v :=
    fun v hv _ _ _ _ ho => (Heap.Reaches.value hv ho).chain _
  obtain ⟨hf, hargs⟩ := List.forall_mem_cons.1 hvalues
  exact Territory.confined_of_keeps (Invariant.apply_keeps Territory.footprint_lawful limit limit
    hf hargs (Territory.reachable_holds _ _ _))

end

/-! ## Frames that there are -/

/-- A session starts with no closures. -/
theorem Heap.topLevel_closures {P : List String → Value → Environment → Prop} {i : Nat}
    {x : String} {v : Value} (hv : (Heap.empty.topLevel.2.frame i).get? x = some v) :
    v.Closures P := by
  match i with
  | 0 =>
      rcases of_get?_builtins hv with ⟨b, rfl⟩ | ⟨p, rfl⟩
      · exact .bool b
      · exact .primitive p
  | 1 => cases hv
  | i + 2 =>
      rw [Heap.frame_of_size_le (Nat.le_add_left 2 i)] at hv
      cases hv

/-- Whether the frames of an environment are frames of a heap. -/
def Heap.Has (h : Heap) (env : Environment) : Prop :=
  ∀ i ∈ env.frames, i < h.frames.size

/-- No closure in a heap captured a frame that is not there. -/
def Heap.Closed (h : Heap) : Prop :=
  ∀ i x v, (h.frame i).get? x = some v → v.Closures fun _ _ env => h.Has env

theorem Heap.topLevel_closed : Heap.empty.topLevel.2.Closed :=
  fun _ _ _ hv => Heap.topLevel_closures hv

/-- All frames there are. -/
def Territory.everything (h : Heap) : Territory where
  start := h
  chains chain := ∀ i ∈ chain, i < h.frames.size

theorem Territory.everything_chain {h : Heap} {env : Environment} (henv : h.Has env) :
    (Territory.everything h).Chain h.frames.size env.frames :=
  fun _ _ hs => .inr fun j hj => henv j (hs.subset hj)

theorem Territory.lt_of_chain {h : Heap} {size : Nat} {frames : List Nat}
    (hframes : (Territory.everything h).Chain size frames) (hle : h.frames.size ≤ size) :
    ∀ i ∈ frames, i < size := by
  intro i hi
  rcases hframes.accessible hi with ⟨-, hlt⟩ | ⟨rest, hold⟩
  · exact hlt
  · exact Nat.lt_of_lt_of_le (hold i List.mem_cons_self) hle

/-- What closures are like in a run that gets at everything. -/
abbrev Territory.Captured (h : Heap) (size : Nat) (_ : List String) (_ : Value)
    (env : Environment) : Prop :=
  (Territory.everything h).Chain size env.frames

theorem Heap.Closed.holds {h : Heap} (hh : h.Closed) : (Territory.everything h).Holds
    (Territory.Captured h h.frames.size) h.frames.size h where
  size_eq := rfl
  grown := Nat.le_refl _
  guarded i _ x v hv := (hh i x v hv).mono fun _ _ _ => Territory.everything_chain
  kept _ _ := rfl

theorem Territory.closed_of_holds {start h : Heap} {size : Nat}
    (hh : (Territory.everything start).Holds (Territory.Captured start size) size h) :
    h.Closed ∧ ∀ v : Value, v.Closures (Territory.Captured start size) →
      v.Closures fun _ _ env => h.Has env := by
  have hhas : ∀ params body env, Territory.Captured start size params body env → h.Has env :=
    fun _ _ _ hc i hi => hh.size_eq ▸ Territory.lt_of_chain hc hh.grown i hi
  refine ⟨fun i x v hv => ?_, fun v hv => hv.mono hhas⟩
  by_cases hi : (Territory.everything start).Accessible size i
  · exact (hh.guarded i hi x v hv).mono hhas
  · have hle : start.frames.size ≤ i := Nat.le_of_not_lt fun hlt =>
      hi (.inr ⟨[], List.forall_mem_singleton.2 hlt⟩)
    have hnone : (Territory.everything start).start.frame i = ∅ := Heap.frame_of_size_le hle
    rw [hh.kept i hi, hnone] at hv
    cases hv

/-- Evaluation captures frames that are there. -/
theorem Scoping.evaluate_closed (limit : Nat) {env : Environment} {expr : Value}
    {m : Memory Heap} (hm : m.bound.Closed) (henv : m.bound.Has env)
    (hexpr : expr.Closures fun _ _ env => m.bound.Has env) :
    let r := Eval.runFrom m (Scoping.lexical.evaluate limit env expr)
    r.2.bound.Closed ∧
      ∀ v ∈ r.1.toOption, v.Closures fun _ _ env => r.2.bound.Has env := by
  have hkeeps : (Territory.everything m.bound).footprint.Keeps m.bound.frames.size
      (Territory.everything m.bound).footprint.value
      (Eval.runFrom m (Scoping.lexical.evaluate limit env expr)) :=
    Invariant.eval_keeps Territory.footprint_lawful limit limit
      ⟨Territory.everything_chain henv, hexpr.mono fun _ _ _ => Territory.everything_chain⟩
      hm.holds
  generalize Eval.runFrom m (Scoping.lexical.evaluate limit env expr) = r at hkeeps
  cases hkeeps with
  | ok hle hm ha =>
      obtain ⟨hclosed, hvalues⟩ := Territory.closed_of_holds hm
      refine ⟨hclosed, ?_⟩
      rintro v ⟨⟩
      exact hvalues _ ha
  | error hle hm _ => exact ⟨(Territory.closed_of_holds hm).1, nofun⟩

end TwinScheme
