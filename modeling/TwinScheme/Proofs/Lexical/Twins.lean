import TwinScheme.Proofs.Evaluator.Indifference
import TwinScheme.Proofs.Evaluator.Lockstep
import TwinScheme.Proofs.Lexical.Frames
import TwinScheme.Proofs.Lexical.Renaming

/-!
# Two heaps of one program

Two runs of corresponding code have heaps of corresponding frames. A frame made
outside stands opposite one with the same names; a frame made inside stands
opposite one whose names are renamed. What makes look-ups agree is the frame in
between, which the call of the renamed `lambda` makes: it binds the parameter,
so a look-up of the parameter from inside ends there at the latest and never
gets to a frame where names are not renamed, while every other name that code
inside may have is its own renaming, and is looked up further out as it was
(`Chains.holder?`).

The two runs may have other things in their heaps and make them at different
times. `Linked` says in addition what a run leaves alone, and it has a clause
for runs that do the same all the time, whose frames and identities are then
the same numbers.
-/

namespace TwinScheme

open List (Forall₂)

namespace Renaming

/-- Where a frame was made: by a call outside, by the call of the renamed
`lambda`, or by a call inside. -/
inductive Kind where
  | plain
  | base
  | inner

/-- Whether the names of a frame are renamed. -/
def Kind.mode : Kind → Mode
  | plain => .outside
  | base | inner => .inside

/-- Where the procedure was made whose call makes the frame. -/
def Kind.origin : Kind → Mode
  | plain | base => .outside
  | inner => .inside

/-- The frames that correspond, with their kinds. -/
abbrev Frames := Nat → Option (Kind × Nat)

/-- Later there are more of them. -/
def Frames.Le (F G : Frames) : Prop :=
  ∀ i p, F i = some p → G i = some p

theorem Frames.le_update {F : Frames} {i : Nat} (hnew : F i = none) (p : Kind × Nat) :
    F.Le (Function.update F i (some p)) := by
  intro i' q hi'
  have hne : i' ≠ i := by
    rintro rfl
    rw [hnew] at hi'
    cases hi'
  rw [Function.update_of_ne hne, hi']

/-- Chains of frames that correspond, from outside or from inside. -/
inductive Chains (F : Frames) : Mode → List Nat → List Nat → Prop
  | nil : Chains F .outside [] []
  | plain {i j is js} : F i = some (.plain, j) → Chains F .outside is js →
      Chains F .outside (i :: is) (j :: js)
  | base {i j is js} : F i = some (.base, j) → Chains F .outside is js →
      Chains F .inside (i :: is) (j :: js)
  | inner {i j is js} : F i = some (.inner, j) → Chains F .inside is js →
      Chains F .inside (i :: is) (j :: js)

section

variable (R : Renaming)

/-- Procedures that do the same. Their calls make frames of some kind. -/
inductive Sound (W : Correspondence) (F : Frames) : Value → Value → Prop
  | closure {i j body body' env env'} {params : List String} (k : Kind) :
      Chains F k.origin env.frames env'.frames → (∀ a ∈ params, R.Allows k.mode a) →
      (k = .base → R.parameter ∈ params) → R.Code W k.mode .expression body body' →
      Sound W F (.closure i params body env)
        (.closure j (params.map (R.rename k.mode)) body' env')
  | lambda {i j params body} : Sound W F (.lambda i params body) (.lambda j params body)

/-- What two runs have made so far. -/
structure World where
  pairs : Correspondence
  frames : Frames
  sound : ∀ {f g}, pairs.calls f g → R.Sound pairs frames f g

end

variable {R : Renaming}

structure World.Le (v w : R.World) : Prop where
  pairs : v.pairs.Le w.pairs
  frames : v.frames.Le w.frames

namespace Chains

variable {F G : Frames} {m : Mode} {is js : List Nat}

theorem mono (h : Chains F m is js) (hle : F.Le G) : Chains G m is js := by
  induction h with
  | nil => exact .nil
  | plain hi _ ih => exact .plain (hle _ _ hi) ih
  | base hi _ ih => exact .base (hle _ _ hi) ih
  | inner hi _ ih => exact .inner (hle _ _ hi) ih

/-- The first frames of two chains correspond. -/
theorem head {i j : Nat} (h : Chains F m (i :: is) (j :: js)) :
    ∃ k : Kind, F i = some (k, j) ∧ k.mode = m := by
  cases h with
  | plain hi => exact ⟨.plain, hi, rfl⟩
  | base hi => exact ⟨.base, hi, rfl⟩
  | inner hi => exact ⟨.inner, hi, rfl⟩

theorem cons {i j : Nat} {k : Kind} (hi : F i = some (k, j)) (h : Chains F k.origin is js) :
    Chains F k.mode (i :: is) (j :: js) := by
  cases k with
  | plain => exact .plain hi h
  | base => exact .base hi h
  | inner => exact .inner hi h

end Chains

namespace Sound

variable {V W : Correspondence} {F G : Frames} {f g : Value}

theorem mono (h : R.Sound V F f g) (hpairs : V.Le W) (hframes : F.Le G) : R.Sound W G f g := by
  cases h with
  | closure k hchains hparams hx hbody =>
      exact .closure k (hchains.mono hframes) hparams hx (hbody.mono hpairs)
  | lambda => exact .lambda

theorem like (h : R.Sound V F f g) : f.Like R.names g := by
  cases h with
  | closure => exact .closure
  | lambda => exact .lambda

/-- What an ordinary `lambda` makes. -/
theorem of_mode {μ : Mode} {i j : Identity} {params : List String} {body body' : Value}
    {env env' : Environment} (hchains : Chains F μ env.frames env'.frames)
    (hparams : ∀ a ∈ params, R.Allows μ a) (hbody : R.Code W μ .expression body body') :
    R.Sound W F (.closure i params body env) (.closure j (params.map (R.rename μ)) body' env') := by
  cases μ with
  | outside => exact .closure .plain hchains hparams nofun hbody
  | inside => exact .closure .inner hchains hparams nofun hbody

end Sound

namespace World

variable {u v w : R.World}

theorem Le.refl (w : R.World) : w.Le w :=
  ⟨.refl _, fun _ _ h => h⟩

theorem Le.trans (h : u.Le v) (h' : v.Le w) : u.Le w :=
  ⟨h.pairs.trans h'.pairs, fun i p hi => h'.frames i p (h.frames i p hi)⟩

theorem like {f g : Value} (h : w.pairs.calls f g) : f.Like R.names g :=
  (w.sound h).like

/-- Two things made at the same time belong together. -/
def link (w : R.World) (t u : Value.Tag)
    (honly : ∀ t' u', w.pairs.tags t' u' → (t' = t ↔ u' = u)) : R.World where
  pairs := w.pairs.join t u honly
  frames := w.frames
  sound h := (w.sound h).mono ⟨.inl, id⟩ fun _ _ h => h

/-- Two procedures that do the same belong together. -/
def adjoin (w : R.World) (f g : Value) (hf : f.isCreated = true) (hg : g.isCreated = true)
    (htagged : ∃ t u, f.tag? = some t ∧ g.tag? = some u ∧ w.pairs.tags t u)
    (hsound : R.Sound w.pairs w.frames f g) : R.World where
  pairs := w.pairs.adjoin f g hf hg htagged
  frames := w.frames
  sound := by
    have hle : w.pairs.Le (w.pairs.adjoin f g hf hg htagged) := ⟨id, .inl⟩
    rintro f' g' (h | ⟨rfl, rfl⟩)
    · exact (w.sound h).mono hle fun _ _ h => h
    · exact hsound.mono hle fun _ _ h => h

/-- Two frames made at the same time belong together. -/
def extend (w : R.World) (i : Nat) (k : Kind) (j : Nat) (hnew : w.frames i = none) : R.World where
  pairs := w.pairs
  frames := Function.update w.frames i (some (k, j))
  sound h := (w.sound h).mono (.refl _) (Frames.le_update hnew _)

theorem le_link {t u : Value.Tag} (honly : ∀ t' u', w.pairs.tags t' u' → (t' = t ↔ u' = u)) :
    w.Le (w.link t u honly) :=
  ⟨⟨.inl, id⟩, fun _ _ h => h⟩

theorem le_adjoin {f g : Value} (hf : f.isCreated = true) (hg : g.isCreated = true)
    (htagged : ∃ t u, f.tag? = some t ∧ g.tag? = some u ∧ w.pairs.tags t u)
    (hsound : R.Sound w.pairs w.frames f g) : w.Le (w.adjoin f g hf hg htagged hsound) :=
  ⟨⟨id, .inl⟩, fun _ _ h => h⟩

theorem le_extend {i j : Nat} {k : Kind} (hnew : w.frames i = none) :
    w.Le (w.extend i k j hnew) :=
  ⟨.refl _, Frames.le_update hnew _⟩

theorem frames_extend {i j : Nat} {k : Kind} (hnew : w.frames i = none) (i' : Nat) :
    (w.extend i k j hnew).frames i' = if i' = i then some (k, j) else w.frames i' :=
  Function.update_apply w.frames i (some (k, j)) i'

/-- A frame has the partner that it was made with, or the one that it had. -/
theorem frames_extend_cases {i j i' j' : Nat} {k k' : Kind} {hnew : w.frames i = none}
    (h : (w.extend i k j hnew).frames i' = some (k', j')) :
    (i' = i ∧ k' = k ∧ j' = j) ∨ w.frames i' = some (k', j') := by
  rw [frames_extend] at h
  split at h
  · next hi =>
    cases h
    exact .inl ⟨hi, rfl, rfl⟩
  · exact .inr h

end World

/-! ## Linked memories -/

/-- How two runs are compared. -/
structure Terms (R : Renaming) where
  error : Error → Error → Prop
  error_refl : ∀ e, error e e
  raised : ∀ {e f}, e.Raised R.names f → error e f
  within : ∀ {e f b b'}, error e f → b.Like R.names b' → error (e.within b) (f.within b')
  /-- Whether the two runs take identities and frames in step. -/
  sync : Prop
  /-- Where the first run starts. -/
  start : Memory Heap
  /-- The frames that the first run may touch. -/
  own : Nat → Prop

/-- The numbers of the two runs are the same numbers. -/
structure InStep (w : R.World) (m n : Memory Heap) : Prop where
  supply : m.supply = n.supply
  size : m.bound.frames.size = n.bound.frames.size
  tags : ∀ {t u}, w.pairs.tags t u → t = u
  frames : ∀ {i k j}, w.frames i = some (k, j) → i = j
  total : ∀ i, i < m.bound.frames.size → ∃ k, w.frames i = some (k, i)

/-- They still are when frames are written to. -/
theorem InStep.write {w : R.World} {m n : Memory Heap} (h : InStep w m n) {i j : Nat}
    {a a' : String} {x x' : Value} :
    InStep w ⟨m.supply, m.bound.write i a x⟩ ⟨n.supply, n.bound.write j a' x'⟩ where
  supply := h.supply
  size := by
    rw [Heap.size_write, Heap.size_write, h.size]
  tags := h.tags
  frames := h.frames
  total := by
    rw [Heap.size_write]
    exact h.total

/-- They still are when a frame is made on each side. -/
theorem InStep.push {w : R.World} {m n : Memory Heap} (h : InStep w m n)
    (hnew : w.frames m.bound.frames.size = none) (k : Kind) (b b' : Bindings) :
    InStep (w.extend m.bound.frames.size k n.bound.frames.size hnew)
      ⟨m.supply, m.bound.push b⟩ ⟨n.supply, n.bound.push b'⟩ where
  supply := h.supply
  size := by
    rw [Heap.size_push, Heap.size_push, h.size]
  tags := h.tags
  frames hi := by
    rcases World.frames_extend_cases hi with ⟨rfl, -, rfl⟩ | hold
    · exact h.size
    · exact h.frames hold
  total i hi := by
    rw [Heap.size_push] at hi
    rw [World.frames_extend]
    split
    · next heq => exact ⟨k, by rw [heq, h.size]⟩
    · next hne => exact h.total i (Nat.lt_of_le_of_ne (Nat.le_of_lt_succ hi) hne)

/-- Memories that two runs may have at the same time. -/
structure Linked (T : R.Terms) (w : R.World) (m n : Memory Heap) : Prop where
  tags : ∀ {t u}, w.pairs.tags t u → T.sync ∨ (t.id < m.supply ∧ u.id < n.supply)
  within : ∀ {i k j}, w.frames i = some (k, j) →
    i < m.bound.frames.size ∧ j < n.bound.frames.size
  unique : ∀ {i i' k k' j}, w.frames i = some (k, j) → w.frames i' = some (k', j) → i = i'
  bindings : ∀ {i k j}, w.frames i = some (k, j) → ∀ a,
    Option.Rel (Matches w.pairs) ((m.bound.frame i).get? a)
      ((n.bound.frame j).get? (R.rename k.mode a))
  parameter : ∀ {i j}, w.frames i = some (.base, j) →
    (m.bound.frame i).contains R.parameter = true
  inStep : T.sync → InStep w m n
  supply : T.start.supply ≤ m.supply
  size : T.start.bound.frames.size ≤ m.bound.frames.size
  owned : ∀ {i p}, w.frames i = some p → T.own i
  /-- What the first run makes from now on is its own. -/
  fresh : ∀ {i}, m.bound.frames.size ≤ i → T.own i
  kept : ∀ {i}, ¬T.own i → m.bound.frame i = T.start.bound.frame i

section

variable {T : R.Terms} {w v : R.World} {m n : Memory Heap}

theorem rel_mono {o o' : Option Value} {V W : Correspondence} (h : V.Le W)
    (ho : Option.Rel (Matches V) o o') : Option.Rel (Matches W) o o' := by
  cases ho with
  | none => exact .none
  | some hab => exact .some (hab.mono h)

/-- A binding stands opposite a binding. -/
theorem contains_eq {b b' : Bindings} {a a' : String} {W : Correspondence}
    (h : Option.Rel (Matches W) (b.get? a) (b'.get? a')) : b.contains a = b'.contains a' := by
  rw [Bindings.contains, Bindings.contains]
  generalize b.get? a = o at h
  generalize b'.get? a' = o' at h
  cases h <;> rfl

namespace Linked

/-- More may belong together, and identities may be taken. -/
theorem grow (h : Linked T w m n) (hle : w.pairs.Le v.pairs) (hframes : v.frames = w.frames)
    {i j : Identity} (hi : m.supply ≤ i)
    (htags : ∀ {t u}, v.pairs.tags t u → T.sync ∨ (t.id < i ∧ u.id < j))
    (hstep : InStep w m n → i = j ∧ ∀ {t u}, v.pairs.tags t u → t = u) :
    Linked T v ⟨i, m.bound⟩ ⟨j, n.bound⟩ where
  tags := htags
  within hi' := h.within (hframes ▸ hi')
  unique hi' hj' := h.unique (hframes ▸ hi') (hframes ▸ hj')
  bindings hi' a := rel_mono hle (h.bindings (hframes ▸ hi') a)
  parameter hi' := h.parameter (hframes ▸ hi')
  inStep hs := by
    have hall := h.inStep hs
    obtain ⟨hij, heq⟩ := hstep hall
    exact ⟨hij, hall.size, heq, fun hi' => hall.frames (hframes ▸ hi'), hframes ▸ hall.total⟩
  supply := Nat.le_trans h.supply hi
  size := h.size
  owned hi' := h.owned (hframes ▸ hi')
  fresh := h.fresh
  kept := h.kept

/-- Taking identities changes nothing else. -/
theorem take (h : Linked T w m n) {i j : Identity} (hi : m.supply ≤ i) (hj : n.supply ≤ j)
    (hij : m.supply = n.supply → i = j) : Linked T w ⟨i, m.bound⟩ ⟨j, n.bound⟩ :=
  h.grow (.refl _) rfl hi
    (fun htu => (h.tags htu).imp_right fun hlt =>
      ⟨Nat.lt_of_lt_of_le hlt.1 hi, Nat.lt_of_lt_of_le hlt.2 hj⟩)
    fun hs => ⟨hij hs.supply, hs.tags⟩

/-- Identities about to be handed out belong to no others. -/
theorem only (h : Linked T w m n) {t u : Value.Tag} (ht : t.id = m.supply) (hu : u.id = n.supply)
    (htu : t.id = u.id → t = u) : ∀ t' u', w.pairs.tags t' u' → (t' = t ↔ u' = u) := by
  intro t' u' htags
  rcases h.tags htags with hs | ⟨ht', hu'⟩
  · have hall := h.inStep hs
    rw [hall.tags htags, htu (ht.trans (hall.supply.trans hu.symm))]
  · refine iff_of_false ?_ ?_
    · rintro rfl
      exact Nat.lt_irrefl _ (ht ▸ ht')
    · rintro rfl
      exact Nat.lt_irrefl _ (hu ▸ hu')

/-- Two things of one kind, made at the same time. -/
theorem link (h : Linked T w m n) {t u : Value.Tag} (ht : t.id = m.supply) (hu : u.id = n.supply)
    (htu : t.id = u.id → t = u) :
    Linked T (w.link t u (h.only ht hu htu)) ⟨m.supply + 1, m.bound⟩
      ⟨n.supply + 1, n.bound⟩ := by
  refine h.grow (World.le_link _).pairs rfl (Nat.le_succ _) ?_ fun hs => ⟨?_, ?_⟩
  · rintro t' u' (htags | ⟨rfl, rfl⟩)
    · exact (h.tags htags).imp_right fun hlt => ⟨Nat.lt_succ_of_lt hlt.1, Nat.lt_succ_of_lt hlt.2⟩
    · exact .inr ⟨ht ▸ Nat.lt_succ_self _, hu ▸ Nat.lt_succ_self _⟩
  · exact congrArg (· + 1) hs.supply
  · rintro t' u' (htags | ⟨rfl, rfl⟩)
    · exact hs.tags htags
    · exact htu (ht.trans (hs.supply.trans hu.symm))

/-- Procedures that do the same. -/
theorem adjoin (h : Linked T w m n) {f g : Value} (hf : f.isCreated = true)
    (hg : g.isCreated = true)
    (htagged : ∃ t u, f.tag? = some t ∧ g.tag? = some u ∧ w.pairs.tags t u)
    (hsound : R.Sound w.pairs w.frames f g) :
    Linked T (w.adjoin f g hf hg htagged hsound) m n :=
  h.grow (World.le_adjoin hf hg htagged hsound).pairs rfl (Nat.le_refl _) h.tags
    fun hs => ⟨hs.supply, hs.tags⟩

/-- A name is given a value in one frame, and what becomes of it in the other. -/
theorem write (h : Linked T w m n) {i j : Nat} {k : Kind} (hi : w.frames i = some (k, j))
    {a : String} {x x' : Value} (hx : Matches w.pairs x x') :
    Linked T w ⟨m.supply, m.bound.write i a x⟩
      ⟨n.supply, n.bound.write j (R.rename k.mode a) x'⟩ where
  tags := h.tags
  within hi' := by
    rw [Heap.size_write, Heap.size_write]
    exact h.within hi'
  unique := h.unique
  bindings {i' k' j'} hi' b := by
    by_cases hii : i = i'
    · subst hii
      cases hi.symm.trans hi'
      rw [Heap.frame_write_self (h.within hi).1, Heap.frame_write_self (h.within hi).2,
        Bindings.get?_insert, Bindings.get?_insert]
      by_cases hba : b = a
      · rw [if_pos hba, if_pos (congrArg _ hba)]
        exact .some hx
      · rw [if_neg hba, if_neg fun heq => hba (rename_injective _ heq)]
        exact h.bindings hi b
    · have hjj : j ≠ j' := by
        rintro rfl
        exact hii (h.unique hi hi')
      rw [Heap.frame_write_of_ne hii, Heap.frame_write_of_ne hjj]
      exact h.bindings hi' b
  parameter hi' := Heap.contains_frame_write (h.parameter hi')
  inStep hs := (h.inStep hs).write
  supply := h.supply
  size := by
    rw [Heap.size_write]
    exact h.size
  owned := h.owned
  fresh {i'} hi' := by
    rw [Heap.size_write] at hi'
    exact h.fresh hi'
  kept {i'} hi' := by
    have hii : i ≠ i' := by
      rintro rfl
      exact hi' (h.owned hi)
    rw [Heap.frame_write_of_ne hii, h.kept hi']

/-- A frame about to be made belongs to nothing yet. -/
theorem frames_size (h : Linked T w m n) : w.frames m.bound.frames.size = none := by
  cases hp : w.frames m.bound.frames.size with
  | none => rfl
  | some p => exact absurd (h.within (k := p.1) (j := p.2) hp).1 (Nat.lt_irrefl _)

/-- A new frame on each side. -/
theorem push (h : Linked T w m n) {k : Kind} {b b' : Bindings}
    (hb : ∀ a, Option.Rel (Matches w.pairs) (b.get? a) (b'.get? (R.rename k.mode a)))
    (hparameter : k = .base → b.contains R.parameter = true) :
    Linked T (w.extend m.bound.frames.size k n.bound.frames.size h.frames_size)
      ⟨m.supply, m.bound.push b⟩ ⟨n.supply, n.bound.push b'⟩ where
  tags := h.tags
  within hi := by
    rw [Heap.size_push, Heap.size_push]
    rcases World.frames_extend_cases hi with ⟨rfl, -, rfl⟩ | hold
    · exact ⟨Nat.lt_succ_self _, Nat.lt_succ_self _⟩
    · exact (h.within hold).imp Nat.lt_succ_of_lt Nat.lt_succ_of_lt
  unique hi hi' := by
    rcases World.frames_extend_cases hi with ⟨rfl, -, hj⟩ | hold
    · rcases World.frames_extend_cases hi' with ⟨rfl, -, -⟩ | hold'
      · rfl
      · exact absurd hj (Nat.ne_of_lt (h.within hold').2)
    · rcases World.frames_extend_cases hi' with ⟨-, -, hj⟩ | hold'
      · exact absurd hj (Nat.ne_of_lt (h.within hold).2)
      · exact h.unique hold hold'
  bindings hi a := by
    rcases World.frames_extend_cases hi with ⟨rfl, rfl, rfl⟩ | hold
    · rw [Heap.frame_push_self, Heap.frame_push_self]
      exact hb a
    · rw [Heap.frame_push_of_ne (Nat.ne_of_lt (h.within hold).1),
        Heap.frame_push_of_ne (Nat.ne_of_lt (h.within hold).2)]
      exact h.bindings hold a
  parameter hi := by
    rcases World.frames_extend_cases hi with ⟨rfl, hk, -⟩ | hold
    · rw [Heap.frame_push_self]
      exact hparameter hk.symm
    · rw [Heap.frame_push_of_ne (Nat.ne_of_lt (h.within hold).1)]
      exact h.parameter hold
  inStep hs := (h.inStep hs).push h.frames_size k b b'
  supply := h.supply
  size := by
    rw [Heap.size_push]
    exact Nat.le_succ_of_le h.size
  owned {i p} hi := by
    obtain ⟨k', j⟩ := p
    rcases World.frames_extend_cases hi with ⟨rfl, -, -⟩ | hold
    · exact h.fresh (Nat.le_refl _)
    · exact h.owned hold
  fresh hi := by
    rw [Heap.size_push] at hi
    exact h.fresh (Nat.le_of_succ_le hi)
  kept {i} hi := by
    have hne : i ≠ m.bound.frames.size := by
      rintro rfl
      exact hi (h.fresh (Nat.le_refl _))
    rw [Heap.frame_push_of_ne hne, h.kept hi]

/-! ## Names -/

variable {μ : Mode} {env env' : Environment} {a : String} {x x' : Value}

/-- The frames in which two look-ups end: they correspond, and there the one name
becomes the other. -/
def Holders (w : R.World) (μ : Mode) (a : String) (i j : Nat) : Prop :=
  ∃ k : Kind, w.frames i = some (k, j) ∧ R.rename k.mode a = R.rename μ a

/-- What both find in the first frames, or look for in the others. -/
theorem holder?_cons (h : Linked T w m n) {i j : Nat} {is js : List Nat} {k : Kind}
    (hi : w.frames i = some (k, j)) (hk : k.mode = μ)
    (hrest : (m.bound.frame i).contains a = false →
      Option.Rel (Holders w μ a) (is.find? fun i => (m.bound.frame i).contains a)
        (js.find? fun j => (n.bound.frame j).contains (R.rename μ a))) :
    Option.Rel (Holders w μ a) ((i :: is).find? fun i => (m.bound.frame i).contains a)
      ((j :: js).find? fun j => (n.bound.frame j).contains (R.rename μ a)) := by
  have hcontains : (n.bound.frame j).contains (R.rename μ a) = (m.bound.frame i).contains a :=
    hk ▸ (contains_eq (h.bindings hi a)).symm
  rw [List.find?_cons, List.find?_cons, hcontains]
  cases hfound : (m.bound.frame i).contains a with
  | true => exact .some ⟨k, hi, by rw [hk]⟩
  | false => exact hrest hfound

/-- Look-ups of a name and of what becomes of it end in corresponding frames. -/
theorem holder? (h : Linked T w m n) {is js : List Nat} (hchains : Chains w.frames μ is js)
    (ha : R.Allows μ a) :
    Option.Rel (Holders w μ a) (is.find? fun i => (m.bound.frame i).contains a)
      (js.find? fun j => (n.bound.frame j).contains (R.rename μ a)) := by
  induction hchains with
  | nil => exact .none
  | plain hi _ ih => exact h.holder?_cons hi rfl fun _ => ih ha
  | base hi _ ih =>
      refine h.holder?_cons hi rfl fun hnot => ?_
      -- The parameter is bound here, so another name is looked up, and goes on as it is.
      have hname : R.rename .inside a = R.rename .outside a := by
        refine ha.resolve_left ?_
        rintro rfl
        rw [h.parameter hi] at hnot
        cases hnot
      unfold Holders
      rw [hname]
      exact ih trivial
  | inner hi _ ih => exact h.holder?_cons hi rfl fun _ => ih ha

theorem find? (h : Linked T w m n) (hchains : Chains w.frames μ env.frames env'.frames)
    (ha : R.Allows μ a) : Option.Rel (Matches w.pairs) (m.bound.find? env a)
      (n.bound.find? env' (R.rename μ a)) := by
  have hholder := h.holder? hchains ha
  unfold Heap.find? Heap.holder?
  generalize env.frames.find? _ = o at hholder
  generalize env'.frames.find? _ = o' at hholder
  cases hholder with
  | none => exact .none
  | some hij =>
      obtain ⟨k, hi, hname⟩ := hij
      exact hname ▸ h.bindings hi a

/-- Inside, the parameter is bound. -/
theorem exists_parameter (h : Linked T w m n) {is js : List Nat}
    (hchains : Chains w.frames .inside is js) :
    ∃ i ∈ is, (m.bound.frame i).contains R.parameter = true := by
  generalize hμ : Mode.inside = μ at hchains
  induction hchains with
  | nil | plain => cases hμ
  | base hi => exact ⟨_, List.mem_cons_self, h.parameter hi⟩
  | inner _ _ ih =>
      obtain ⟨i, hi, hx⟩ := ih rfl
      exact ⟨i, List.mem_cons_of_mem _ hi, hx⟩

/-- So a name that means nothing is not one that is renamed. -/
theorem rename_of_unbound (h : Linked T w m n)
    (hchains : Chains w.frames μ env.frames env'.frames) (ha : R.Allows μ a)
    (hnone : m.bound.find? env a = none) : R.rename μ a = a := by
  cases μ with
  | outside => rfl
  | inside =>
      refine ha.resolve_left ?_
      rintro rfl
      obtain ⟨i, hi, hx⟩ := h.exists_parameter hchains
      rw [Heap.find?_eq_findSome?, List.findSome?_eq_none_iff] at hnone
      rw [Bindings.contains, hnone i hi] at hx
      cases hx

theorem overwrite (h : Linked T w m n) (hchains : Chains w.frames μ env.frames env'.frames)
    (ha : R.Allows μ a) (hx : Matches w.pairs x x') :
    Linked T w ⟨m.supply, m.bound.overwrite env a x⟩
      ⟨n.supply, n.bound.overwrite env' (R.rename μ a) x'⟩ := by
  have hholder := h.holder? hchains ha
  unfold Heap.overwrite Heap.holder?
  generalize env.frames.find? _ = o at hholder
  generalize env'.frames.find? _ = o' at hholder
  cases hholder with
  | none => exact h
  | some hij =>
      obtain ⟨k, hi, hname⟩ := hij
      exact hname ▸ h.write hi hx

theorem define (h : Linked T w m n) (hchains : Chains w.frames μ env.frames env'.frames)
    (hx : Matches w.pairs x x') :
    Linked T w ⟨m.supply, m.bound.define env a x⟩
      ⟨n.supply, n.bound.define env' (R.rename μ a) x'⟩ := by
  obtain ⟨k, hi, rfl⟩ := hchains.head
  exact h.write hi hx

end Linked

end

/-! ## The frames of calls -/

section

variable {W : Correspondence} {args args' : List Value}

theorem bind_rel {r : String → String} (hr : Function.Injective r) {ρ ρ' : Locals}
    (hρ : ∀ a, Option.Rel (Matches W) (ρ a) (ρ' (r a))) (params : List String)
    (hargs : Forall₂ (Matches W) args args') (a : String) :
    Option.Rel (Matches W) (ρ.bind (params.zip args) a)
      (ρ'.bind ((params.map r).zip args') (r a)) := by
  induction params generalizing args args' ρ ρ' with
  | nil => exact hρ a
  | cons x params ih =>
      cases hargs with
      | nil => exact hρ a
      | @cons v v' vs vs' hv hvs =>
          rw [List.map_cons, List.zip_cons_cons, List.zip_cons_cons, Locals.bind_cons,
            Locals.bind_cons]
          refine ih (fun b => ?_) hvs
          rw [Function.update_apply, Function.update_apply]
          by_cases hb : b = x
          · rw [if_pos hb, if_pos (congrArg r hb)]
            exact .some hv
          · rw [if_neg hb, if_neg fun heq => hb (hr heq)]
            exact hρ b

/-- Calls of a procedure and of one with renamed parameters make corresponding
frames. -/
theorem frame_rel {r : String → String} (hr : Function.Injective r) (params : List String)
    (hargs : Forall₂ (Matches W) args args') (a : String) :
    Option.Rel (Matches W) ((Lexical.frame params args).get? a)
      ((Lexical.frame (params.map r) args').get? (r a)) := by
  rw [Lexical.get?_frame, Lexical.get?_frame]
  exact bind_rel hr (fun _ => .none) params hargs a

end

end Renaming

/-- A call binds its parameters. -/
theorem Lexical.contains_frame {params : List String} {args : List Value} {x : String}
    (hlen : params.length = args.length) (hx : x ∈ params) :
    (Lexical.frame params args).contains x = true := by
  rw [Bindings.contains, Lexical.get?_frame, Locals.isSome_bind_zip _ hlen]
  exact .inl hx

end TwinScheme
