import TwinScheme.Proofs.Agreement.Frames
import TwinScheme.Proofs.Agreement.Shapes
import TwinScheme.Proofs.Evaluator.DepthLimit
import TwinScheme.Proofs.Evaluator.Indifference

/-!
# Two memories of one program

`Linked` is what holds between the memory of a lexical run and that of a
textual run of the same hygienic program. Names mean corresponding things at
the top; the names that the program leaves alone mean what they meant before
it; and every closure stands opposite a `lambda` value with the same parameters
and the same body, except that what the closure finds in its environment has
been written into the body.

The rest says which steps keep memories linked: making lists and procedures,
defining and assigning, and entering calls, which is where a frame on the one
side meets a substitution on the other.
-/

namespace TwinScheme

open List (Forall₂)

/-- What two runs have made so far: things that belong together, and the frames
of calls, of which the textual run has none. -/
structure History where
  pairs : Correspondence
  calls : List Bindings

structure History.Le (v w : History) : Prop where
  pairs : v.pairs.Le w.pairs
  calls : v.calls <+: w.calls

/-- A closure and the `lambda` value that does the same. -/
inductive Sound (kept : Meanings) (w : History) : Value → Value → Prop
  | intro {i j params body body' env s ρ} : InScope kept.names w.calls s env ρ →
      s.Admits kept.names params → Hygienic kept.toKept (s.enter params) body →
      Code w.pairs kept ρ body body' →
      Sound kept w (.closure i params body env) (.lambda j (params.map .symbol) body')

/-- Memories that two runs of a hygienic program may have at the same time. -/
structure Linked (kept : Meanings) (w : History) (m : Memory Heap) (n : Memory Bindings) :
    Prop where
  bounded : ∀ t u, w.pairs.tags t u → t.id < m.supply ∧ u.id < n.supply
  frames : ∃ b₀ b₁, m.bound.Holds b₀ b₁ w.calls
  globals : ∀ x, Option.Rel (Matches w.pairs) (m.bound.find? .top x) (Textual.find? n.bound x)
  settled : ∀ g v, kept.meaning g = some v → Textual.find? n.bound g = some v
  quote : Textual.find? n.bound Keyword.quote.name = none
  sound : ∀ f g, w.pairs.calls f g → Sound kept w f g

namespace History.Le

variable {u v w : History} {kept : Meanings}

theorem refl (w : History) : w.Le w :=
  ⟨.refl _, List.prefix_refl _⟩

theorem trans (h : u.Le v) (h' : v.Le w) : u.Le w :=
  ⟨h.pairs.trans h'.pairs, h.calls.trans h'.calls⟩

theorem sound (h : v.Le w) {f g : Value} (hfg : Sound kept v f g) : Sound kept w f g := by
  obtain ⟨hs, hparams, hbody, hcode⟩ := hfg
  exact .intro (hs.mono h.calls) hparams hbody (hcode.mono h.pairs)

end History.Le

/-- Lexical and textual runs of one program. -/
def Bridge.twins (kept : Meanings) : Bridge Heap Bindings where
  World := History
  le := History.Le
  le_refl := .refl
  le_trans := .trans
  memory := Linked kept
  value w := Matches w.pairs
  value_mono _ _ _ _ h hab := hab.mono h.pairs
  error := Error.Alike
  excused := Error.IsTooDeep

theorem rel_imp {α β : Type} {R S : α → β → Prop} {o : Option α} {o' : Option β}
    (h : Option.Rel R o o') (hRS : ∀ a b, R a b → S a b) : Option.Rel S o o' := by
  cases h with
  | none => exact .none
  | some hab => exact .some (hRS _ _ hab)

namespace Linked

variable {kept : Meanings} {v w : History} {m : Memory Heap} {n : Memory Bindings}

/-- More may belong together, if the procedures among it do the same. -/
theorem grow (h : Linked kept w m n) (hle : w.Le v) (hcalls : v.calls = w.calls)
    {i j : Identity} (hbounded : ∀ t u, v.pairs.tags t u → t.id < i ∧ u.id < j)
    (hsound : ∀ f g, v.pairs.calls f g → w.pairs.calls f g ∨ Sound kept v f g) :
    Linked kept v ⟨i, m.bound⟩ ⟨j, n.bound⟩ where
  bounded := hbounded
  frames := hcalls ▸ h.frames
  globals x := rel_imp (h.globals x) fun _ _ hab => hab.mono hle.pairs
  settled := h.settled
  quote := h.quote
  sound f g hfg := (hsound f g hfg).elim (fun hw => hle.sound (h.sound f g hw)) id

/-- Taking identities changes nothing else. -/
theorem supply (h : Linked kept w m n) {i j : Identity} (hi : m.supply ≤ i)
    (hj : n.supply ≤ j) : Linked kept w ⟨i, m.bound⟩ ⟨j, n.bound⟩ := by
  refine h.grow (.refl w) rfl (fun t u htu => ?_) fun f g hfg => .inl hfg
  obtain ⟨ht, hu⟩ := h.bounded t u htu
  exact ⟨Nat.lt_of_lt_of_le ht hi, Nat.lt_of_lt_of_le hu hj⟩

end Linked

/-! ## Making lists and procedures -/

section

variable {kept : Meanings} {w : History}

/-- Two things made at the same time belong together. -/
def History.link (w : History) (t u : Value.Tag)
    (hnew : ∀ t' u', w.pairs.tags t' u' → t' ≠ t ∧ u' ≠ u) : History :=
  ⟨w.pairs.link t u hnew, w.calls⟩

theorem History.le_link {t u : Value.Tag}
    (hnew : ∀ t' u', w.pairs.tags t' u' → t' ≠ t ∧ u' ≠ u) : w.Le (w.link t u hnew) :=
  ⟨⟨.inl, id⟩, List.prefix_refl _⟩

/-- Identities about to be handed out belong to nothing yet. -/
theorem Linked.new {m : Memory Heap} {n : Memory Bindings} (h : Linked kept w m n)
    {t u : Value.Tag} (ht : t.id = m.supply) (hu : u.id = n.supply) :
    ∀ t' u', w.pairs.tags t' u' → t' ≠ t ∧ u' ≠ u := by
  intro t' u' htags
  obtain ⟨ht', hu'⟩ := h.bounded t' u' htags
  constructor
  · rintro rfl
    exact Nat.lt_irrefl _ (ht ▸ ht')
  · rintro rfl
    exact Nat.lt_irrefl _ (hu ▸ hu')

theorem Linked.link {m : Memory Heap} {n : Memory Bindings} (h : Linked kept w m n)
    {t u : Value.Tag} (ht : t.id = m.supply) (hu : u.id = n.supply) :
    Linked kept (w.link t u (h.new ht hu)) ⟨m.supply + 1, m.bound⟩ ⟨n.supply + 1, n.bound⟩ := by
  refine h.grow (History.le_link _) rfl ?_ fun f g hfg => .inl hfg
  rintro t' u' (htags | ⟨rfl, rfl⟩)
  · obtain ⟨ht', hu'⟩ := h.bounded t' u' htags
    exact ⟨Nat.lt_succ_of_lt ht', Nat.lt_succ_of_lt hu'⟩
  · exact ⟨ht ▸ Nat.lt_succ_self _, hu ▸ Nat.lt_succ_self _⟩

theorem list_tracks {vs vs' : List Value} (h : Forall₂ (Matches w.pairs) vs vs') :
    (Bridge.twins kept).Tracks w (Eval.list vs) (Eval.list vs') (Bridge.twins kept).value := by
  intro m n hm
  rw [Eval.runFrom_list, Eval.runFrom_list]
  have hlink := hm.link (t := .list m.supply) (u := .list n.supply) rfl rfl
  refine .ok (History.le_link _) hlink (.list (.inr ⟨rfl, rfl⟩) ?_)
  exact h.imp fun _ _ hab => hab.mono (History.le_link _).pairs

/-- What the evaluators share is the same for both runs. -/
theorem Bridge.twins_lawful : (Bridge.twins kept).Lawful where
  error_eval _ := .refl _
  bool _ b := .bool b
  unspecified _ := .unspecified
  truthy h := h.isTruthy_eq
  list := list_tracks
  primitive h := by
    cases h with
    | primitive p => rfl
    | created hcalls => cases (Correspondence.created _ hcalls).1
  created h hp p := by
    rintro rfl
    cases h with
    | primitive p => exact hp p rfl
    | created hcalls => cases (Correspondence.created _ hcalls).2
  call p h := by
    have hcall := p.call_likewise h
    generalize p.call _ = r at hcall
    generalize p.call _ = r' at hcall
    cases hcall with
    | error he => exact .error he.alike
    | ok houtcome =>
        cases houtcome with
        | value hv => exact .value hv
        | fresh hvs => exact .fresh hvs
        | each hf hcalls => exact .each hf hcalls

theorem procedure_tracks {s : Scope} {env : Environment} {ρ : Locals} {params : List String}
    {body body' : Value} (hs : InScope kept.names w.calls s env ρ) (hparams : s.Admits kept.names params)
    (hbody : Hygienic kept.toKept (s.enter params) body) (hcode : Code w.pairs kept ρ body body') :
    (Bridge.twins kept).Tracks w (Scoping.lexical.procedure env (params.map .symbol) body)
      (Scoping.textual.procedure () (params.map .symbol) body') (Bridge.twins kept).value := by
  intro m n hm
  have htextual : Eval.runFrom n (Scoping.textual.procedure () (params.map .symbol) body') =
      (.ok (.lambda n.supply (params.map .symbol) body'), ⟨n.supply + 1, n.bound⟩) := rfl
  rw [runFrom_procedure, htextual]
  have hnew := hm.new (t := .closure m.supply) (u := .lambda n.supply) rfl rfl
  have hlink := hm.link (t := .closure m.supply) (u := .lambda n.supply) rfl rfl
  let v : History := ⟨(w.link _ _ hnew).pairs.adjoin (.closure m.supply params body env)
    (.lambda n.supply (params.map .symbol) body') rfl rfl
    ⟨_, _, rfl, rfl, .inr ⟨rfl, rfl⟩⟩, w.calls⟩
  have hle : (w.link _ _ hnew).Le v := ⟨⟨id, .inl⟩, List.prefix_refl _⟩
  have hcalls : v.pairs.calls (.closure m.supply params body env)
      (.lambda n.supply (params.map .symbol) body') := .inr ⟨rfl, rfl⟩
  refine .ok ((History.le_link hnew).trans hle) ?_ (.created hcalls)
  refine hlink.grow hle rfl hlink.bounded ?_
  rintro f g (hfg | ⟨rfl, rfl⟩)
  · exact .inl hfg
  · exact .inr (.intro hs hparams hbody (hcode.mono ((History.le_link hnew).trans hle).pairs))

/-! ## Names -/

theorem resolve_tracks {s : Scope} {env : Environment} {ρ : Locals} {x : String}
    (hs : InScope kept.names w.calls s env ρ) (hx : ρ x = none) :
    (Bridge.twins kept).Tracks w (Scoping.lexical.resolve env x)
      (Scoping.textual.resolve () x) (Bridge.twins kept).value := by
  intro m n hm
  obtain ⟨b₀, b₁, hholds⟩ := hm.frames
  have htextual : Scoping.textual.find? n.bound () x = Textual.find? n.bound x := rfl
  rw [Scoping.runFrom_resolve, Scoping.runFrom_resolve, hs.find?_free hholds hx, htextual]
  have hrel := hm.globals x
  generalize m.bound.find? .top x = o at hrel
  generalize Textual.find? n.bound x = o' at hrel
  cases hrel with
  | none => exact .error (.refl w) hm (.refl _)
  | some hab => exact .ok (.refl w) hm hab

theorem Textual.find?_insert (store : Bindings) (x y : String) (v : Value) :
    Textual.find? (store.insert x v) y = if y = x then some v else Textual.find? store y := by
  rw [Textual.find?, Bindings.get?_insert]
  split <;> rfl

/-- Giving a name a new meaning at the top, on both sides. What is settled may
change with it. -/
theorem Linked.insert {kept' : Meanings} {m : Memory Heap} {n : Memory Bindings}
    (hm : Linked kept w m n) {x : String} {v v' : Value} (hx : Plain x)
    (hv : Matches w.pairs v v') {heap : Heap} (hholds : ∃ b₀ b₁, heap.Holds b₀ b₁ w.calls)
    (hfind : ∀ y, heap.find? .top y = if y = x then some v else m.bound.find? .top y)
    (hsettled : ∀ g u, kept'.meaning g = some u →
      Textual.find? (n.bound.insert x v') g = some u)
    (hsound : ∀ f g, w.pairs.calls f g → Sound kept' w f g) :
    Linked kept' w ⟨m.supply, heap⟩ ⟨n.supply, n.bound.insert x v'⟩ where
  bounded := hm.bounded
  frames := hholds
  globals y := by
    rw [hfind, Textual.find?_insert]
    split
    · exact .some hv
    · exact hm.globals y
  settled := hsettled
  quote := by
    rw [Textual.find?_insert, if_neg (hx.ne_keyword .quote).symm, hm.quote]
  sound := hsound

/-- What is settled does not change with a name that a program may define or assign
to. -/
theorem Linked.rebind {m : Memory Heap} {n : Memory Bindings} (hm : Linked kept w m n)
    {x : String} {v v' : Value} (hx : Binder kept.names x) (hv : Matches w.pairs v v')
    {heap : Heap} (hholds : ∃ b₀ b₁, heap.Holds b₀ b₁ w.calls)
    (hfind : ∀ y, heap.find? .top y = if y = x then some v else m.bound.find? .top y) :
    Linked kept w ⟨m.supply, heap⟩ ⟨n.supply, n.bound.insert x v'⟩ := by
  refine hm.insert hx.toPlain hv hholds hfind (fun g u hg => ?_) hm.sound
  rw [Textual.find?_insert, if_neg, hm.settled g u hg]
  rintro rfl
  exact hx.not_kept (kept.mem_names _ (kept.mem_settled hg))

theorem define_tracks {x : String} {v v' : Value} (hx : Binder kept.names x)
    (hv : Matches w.pairs v v') :
    (Bridge.twins kept).Tracks w
      (do
        Eval.rebind fun bound => Scoping.lexical.define bound .top x v
        return .unspecified)
      (do
        Eval.rebind fun bound => Scoping.textual.define bound () x v'
        return .unspecified) (Bridge.twins kept).value := by
  intro m n hm
  obtain ⟨b₀, b₁, hholds⟩ := hm.frames
  obtain ⟨b₁', hholds', hfind⟩ := hholds.define_top (x := x) (v := v)
  exact .ok (.refl w) (hm.rebind hx hv ⟨b₀, b₁', hholds'⟩ hfind) .unspecified

theorem assign_tracks {s : Scope} {env : Environment} {ρ : Locals} {x : String}
    {v v' : Value} (hs : InScope kept.names w.calls s env ρ) (hfree : ρ x = none)
    (hx : Binder kept.names x) (hv : Matches w.pairs v v') :
    (Bridge.twins kept).Tracks w (Scoping.lexical.assign env x v)
      (Scoping.textual.assign () x v') fun _ _ _ => True := by
  intro m n hm
  obtain ⟨b₀, b₁, hholds⟩ := hm.frames
  have htextual : Scoping.textual.find? n.bound () x = Textual.find? n.bound x := rfl
  rw [Scoping.assign, Scoping.assign, Eval.runFrom_bind, Eval.runFrom_bind,
    Scoping.runFrom_resolve, Scoping.runFrom_resolve, hs.find?_free hholds hfree, htextual]
  have hrel := hm.globals x
  have hover := hholds.overwrite_top (x := x) (v := v)
  generalize m.bound.find? .top x = o at hrel hover
  generalize Textual.find? n.bound x = o' at hrel
  cases hrel with
  | none => exact .error (.refl w) hm (.refl _)
  | some hab =>
      obtain ⟨b₀', b₁', hholds', hfind'⟩ := hover rfl
      dsimp only
      rw [Eval.runFrom_rebind, Eval.runFrom_rebind]
      have hsame : Scoping.lexical.overwrite m.bound env x v = m.bound.overwrite .top x v :=
        hs.overwrite_eq hholds hfree
      rw [hsame]
      exact .ok (.refl w) (hm.rebind hx hv ⟨b₀', b₁', hholds'⟩ hfind') trivial

/-! ## Taking identities on one side -/

theorem supply_left {α β : Type} {P : α → Prop} {x : Fresh α} (hx : x.Ensures P) (b : β) :
    (Bridge.twins kept).Tracks w (Eval.supply x) (pure b) fun _ a _ => P a := by
  intro m n hm
  rw [Eval.runFrom_supply, Eval.runFrom_pure]
  obtain ⟨hp, hle⟩ := hx m.supply
  exact .ok (.refl w) (hm.supply hle (Nat.le_refl _)) hp

theorem supply_right {α β : Type} {P : β → Prop} {x : Fresh β} (hx : x.Ensures P) (a : α) :
    (Bridge.twins kept).Tracks w (pure a) (Eval.supply x) fun _ _ b => P b := by
  intro m n hm
  rw [Eval.runFrom_supply, Eval.runFrom_pure]
  obtain ⟨hp, hle⟩ := hx n.supply
  exact .ok (.refl w) (hm.supply (Nat.le_refl _) hle) hp

end

/-! ## Entering calls -/

/-- Expressions that two runs evaluate at the same time. -/
structure Opposite (kept : Meanings) (s : Scope) (env : Environment) (ρ : Locals)
    (w : History) (e e' : Value) : Prop where
  scope : InScope kept.names w.calls s env ρ
  hygienic : Hygienic kept.toKept s e
  code : Code w.pairs kept ρ e e'

theorem Opposite.mono {kept : Meanings} {s : Scope} {env : Environment} {ρ : Locals} :
    (Bridge.twins kept).Persists (Opposite kept s env ρ) :=
  fun _ _ _ _ hle h => ⟨h.scope.mono hle.calls, h.hygienic, h.code.mono hle.pairs⟩

section

variable {kept : Meanings} {w : History}

/-- One more call. -/
def History.extend (w : History) (frame : Bindings) : History :=
  ⟨w.pairs, w.calls ++ [frame]⟩

theorem History.le_extend (w : History) (frame : Bindings) : w.Le (w.extend frame) :=
  ⟨.refl _, List.prefix_append _ _⟩

/-- A new frame is no one else's. -/
theorem Linked.extend {m : Memory Heap} {n : Memory Bindings} (hm : Linked kept w m n)
    (frame : Bindings) : Linked kept (w.extend frame) ⟨m.supply, m.bound.push frame⟩ n := by
  have hle := w.le_extend frame
  obtain ⟨b₀, b₁, hholds⟩ := hm.frames
  refine ⟨hm.bounded, ⟨b₀, b₁, hholds.push⟩, fun x => ?_, hm.settled, hm.quote,
    fun f g hfg => hle.sound (hm.sound f g hfg)⟩
  rw [hholds.push.find?_top, ← hholds.find?_top]
  exact hm.globals x

/-- A call of procedures that do the same evaluates expressions that belong
opposite each other, or fails for the number of arguments. -/
theorem enter_tracks {f f' : Value} {args args' : List Value}
    (hf : Matches w.pairs f f') (hp : ∀ p, f ≠ .primitive p)
    (hargs : Forall₂ (Matches w.pairs) args args') :
    (Bridge.twins kept).Tracks w (Scoping.lexical.enter f args) (Scoping.textual.enter f' args')
      fun v r r' => ∃ s ρ, Opposite kept s r.1 ρ v r.2 r'.2 := by
  intro m n hm
  cases hf with
  | created hcalls =>
      obtain ⟨hs, hparams, hbody, hcode⟩ := hm.sound _ _ hcalls
      next i j params body body' env s ρ =>
      have hlexical : Scoping.lexical.enter = Lexical.enter := rfl
      have htextual : Scoping.textual.enter = Textual.enter := rfl
      rw [hlexical, htextual, Lexical.enter, Textual.enter, List.length_map, ← hargs.length_eq]
      by_cases hlen : params.length = args.length
      · rw [if_neg (not_not.2 hlen), if_neg (not_not.2 hlen)]
        obtain ⟨b₀, b₁, hholds⟩ := hm.frames
        have hnew : ∀ x ∈ params, ρ x = none ∧ x ∉ kept.names :=
          fun x hx => ⟨hs.free (hparams.new x hx), (hparams.binder x hx).not_kept⟩
        obtain ⟨hinst, hle⟩ :=
          Textual.instantiate_ensures hparams.nodup hnew hlen hargs hcode n.supply
        -- One run pushes a frame, the other takes identities for what it copies.
        have hlink := (hm.extend (Lexical.frame params args)).supply (Nat.le_refl _) hle
        refine .ok (w.le_extend (Lexical.frame params args)) hlink ⟨_, _, ?_, hbody, hinst⟩
        have henvs := hs.extend hparams hlen
        have henv : (m.bound.extend env (Lexical.frame params args)).1 =
            ⟨w.calls.length + 2, env.frames⟩ := by
          rw [Heap.extend, hholds.size]
        rw [← henv] at henvs
        exact henvs
      · rw [if_pos hlen, if_pos hlen]
        exact .error (.refl w) hm (.arity _ _)
  | primitive p => exact absurd rfl (hp p)
  | _ => exact .error (.refl w) hm (.type _ _ _ _)

end

end TwinScheme
