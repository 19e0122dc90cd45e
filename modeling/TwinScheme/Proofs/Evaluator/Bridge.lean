import Mathlib.Data.List.Forall2
import TwinScheme.Proofs.Evaluator.Running

/-!
# Two runs side by side

Several laws of this library compare two runs: one expression under two limits,
one program under two ways of binding names. They differ in what is compared
and agree on how a comparison is carried through a computation, and the second
half is done here once.

A `Bridge` says what is compared. Its worlds record what the two runs have made
so far, and grow; a world says which memories and which values correspond.
`Tracks` is the judgment: from corresponding memories, whatever the first
computation does, the second does the corresponding thing in a world that has
grown. One escape is allowed. A failure of the first run that the bridge
excuses obliges the second to nothing, which is how a statement about runs that
stay within a limit is carried through an evaluator that may exceed it.

The rules follow the evaluator: sequences, the clauses of a `cond`, operands,
and calls, where `map` of `map` is the only recursion that is not the
evaluator's own.
-/

namespace TwinScheme

open List (Forall₂)

/-- What two runs are compared by. -/
structure Bridge (σ τ : Type) where
  /-- What the two runs have made so far. -/
  World : Type
  le : World → World → Prop
  le_refl : ∀ w, le w w
  le_trans : ∀ {u v w}, le u v → le v w → le u w
  memory : World → Memory σ → Memory τ → Prop
  value : World → Value → Value → Prop
  value_mono : ∀ v w a b, le v w → value v a b → value w a b
  error : Error → Error → Prop
  /-- The failures of the first run after which nothing is compared. -/
  excused : Error → Prop

namespace Bridge

variable {σ τ ρ ρ' α β γ δ : Type} (B : Bridge σ τ)

/-- How the two runs may end. -/
inductive Ends (w : B.World) (Q : B.World → α → β → Prop) :
    Except Error α × Memory σ → Except Error β × Memory τ → Prop
  | ok {v a b m n} : B.le w v → B.memory v m n → Q v a b →
      Ends w Q (.ok a, m) (.ok b, n)
  | error {v e f m n} : B.le w v → B.memory v m n → B.error e f →
      Ends w Q (.error e, m) (.error f, n)
  | excused {e m r} : B.excused e → Ends w Q (.error e, m) r

/-- Whatever the first computation does, the second does the corresponding
thing. -/
def Tracks (w : B.World) (x : Eval σ α) (y : Eval τ β)
    (Q : B.World → α → β → Prop) : Prop :=
  ∀ m n, B.memory w m n → B.Ends w Q (Eval.runFrom m x) (Eval.runFrom n y)

/-- What held of two things in a world holds of them in every later one. -/
def Persists (R : B.World → α → β → Prop) : Prop :=
  ∀ u v a b, B.le u v → R u a b → R v a b

variable {B}

theorem Ends.weaken {u w : B.World} {Q R : B.World → α → β → Prop}
    {r : Except Error α × Memory σ} {s : Except Error β × Memory τ}
    (hle : B.le u w) (hQ : ∀ v a b, B.le w v → Q v a b → R v a b)
    (h : B.Ends w Q r s) : B.Ends u R r s := by
  cases h with
  | ok hv hm hq => exact .ok (B.le_trans hle hv) hm (hQ _ _ _ hv hq)
  | error hv hm he => exact .error (B.le_trans hle hv) hm he
  | excused he => exact .excused he

/-! ## The rules for computations -/

namespace Tracks

variable {w : B.World} {P : B.World → α → β → Prop} {Q : B.World → γ → δ → Prop}

theorem consequence {R : B.World → α → β → Prop} {x : Eval σ α} {y : Eval τ β}
    (h : B.Tracks w x y P) (hPR : ∀ v a b, B.le w v → P v a b → R v a b) :
    B.Tracks w x y R :=
  fun m n hm => (h m n hm).weaken (B.le_refl w) hPR

theorem pure {a : α} {b : β} (h : P w a b) :
    B.Tracks w (pure a) (pure b) P := by
  intro m n hm
  rw [Eval.runFrom_pure, Eval.runFrom_pure]
  exact .ok (B.le_refl w) hm h

theorem throw {e f : Error} (h : B.error e f) :
    B.Tracks w (throw e) (throw f) P := by
  intro m n hm
  rw [Eval.runFrom_throw, Eval.runFrom_throw]
  exact .error (B.le_refl w) hm h

theorem excused {e : Error} {y : Eval τ β} (h : B.excused e) :
    B.Tracks w (MonadExcept.throw e) y P := by
  intro m n hm
  rw [Eval.runFrom_throw]
  exact .excused h

theorem bind {x : Eval σ α} {y : Eval τ β} {f : α → Eval σ γ} {g : β → Eval τ δ}
    (hx : B.Tracks w x y P)
    (hf : ∀ v a b, B.le w v → P v a b → B.Tracks v (f a) (g b) Q) :
    B.Tracks w (x >>= f) (y >>= g) Q := by
  intro m n hm
  rw [Eval.runFrom_bind, Eval.runFrom_bind]
  have h := hx m n hm
  generalize Eval.runFrom m x = r at h ⊢
  generalize Eval.runFrom n y = s at h ⊢
  cases h with
  | ok hv hm' hp =>
      exact (hf _ _ _ hv hp _ _ hm').weaken hv fun _ _ _ _ hq => hq
  | error hv hm' he => exact .error hv hm' he
  | excused he => exact .excused he

/-- A step that only the first computation takes. -/
theorem bind_left {P : B.World → α → Unit → Prop} {x : Eval σ α} {f : α → Eval σ γ}
    {y : Eval τ δ} (hx : B.Tracks w x (Pure.pure ()) P)
    (hf : ∀ v a, B.le w v → P v a () → B.Tracks v (f a) y Q) : B.Tracks w (x >>= f) y Q := by
  have h := hx.bind (g := fun _ => y) fun v a _ hv hp => hf v a hv hp
  rwa [pure_bind] at h

/-- A step that only the second computation takes. -/
theorem bind_right {P : B.World → Unit → β → Prop} {x : Eval σ γ} {y : Eval τ β}
    {g : β → Eval τ δ} (hy : B.Tracks w (Pure.pure ()) y P)
    (hg : ∀ v b, B.le w v → P v () b → B.Tracks v x (g b) Q) : B.Tracks w x (y >>= g) Q := by
  have h := hy.bind (f := fun _ => x) fun v _ b hv hp => hg v b hv hp
  rwa [pure_bind] at h

/-- Failures may be reworded on their way out. -/
theorem rethrow {x : Eval σ α} {y : Eval τ β} {φ ψ : Error → Error}
    (hx : B.Tracks w x y P) (herror : ∀ e f, B.error e f → B.error (φ e) (ψ f))
    (hexcused : ∀ e, B.excused e → B.excused (φ e)) :
    B.Tracks w (tryCatch x fun e => MonadExcept.throw (φ e))
      (tryCatch y fun e => MonadExcept.throw (ψ e)) P := by
  intro m n hm
  rw [Eval.runFrom_tryCatch, Eval.runFrom_tryCatch]
  have h := hx m n hm
  generalize Eval.runFrom m x = r at h ⊢
  generalize Eval.runFrom n y = s at h ⊢
  cases h with
  | ok hv hm' hp => exact .ok hv hm' hp
  | error hv hm' he => exact .error hv hm' (herror _ _ he)
  | excused he => exact .excused (hexcused _ he)

theorem rethrow_left {x : Eval σ α} {y : Eval τ β} {φ : Error → Error}
    (hx : B.Tracks w x y P) (herror : ∀ e f, B.error e f → B.error (φ e) f)
    (hexcused : ∀ e, B.excused e → B.excused (φ e)) :
    B.Tracks w (tryCatch x fun e => MonadExcept.throw (φ e)) y P := by
  have h := hx.rethrow (ψ := id) herror hexcused
  simpa only [id, Eval.tryCatch_throw] using h

theorem mapM {R : B.World → α → β → Prop}
    (hR : B.Persists R) (hQ : B.Persists Q)
    {f : α → Eval σ γ} {g : β → Eval τ δ} {xs : List α} {ys : List β}
    (hxs : Forall₂ (R w) xs ys)
    (hf : ∀ v a b, B.le w v → R v a b → B.Tracks v (f a) (g b) Q) :
    B.Tracks w (xs.mapM f) (ys.mapM g) (fun v => Forall₂ (Q v)) := by
  induction xs generalizing w ys with
  | nil =>
      cases hxs
      exact pure .nil
  | cons x xs ih =>
      obtain ⟨y, ys, hxy, htail, rfl⟩ := List.forall₂_cons_left_iff.1 hxs
      rw [List.mapM_cons, List.mapM_cons]
      refine bind (hf w x y (B.le_refl w) hxy) fun v c d hv hcd => ?_
      have htail' : Forall₂ (R v) xs ys := htail.imp fun _ _ => hR _ _ _ _ hv
      refine bind (ih htail' fun u a b hu => hf u a b (B.le_trans hv hu)) ?_
      intro u cs ds hu hcds
      exact pure (.cons (hQ _ _ _ _ hu hcd) hcds)

end Tracks

/-! ## The rules for the evaluator

What a bridge has to provide for the parts of evaluation that no way of binding
names has a say in: failures of the evaluator itself, the constants it makes,
truth, new lists and primitives. -/

/-- How what two primitives ask for may correspond. -/
inductive Asked (B : Bridge σ τ) (w : B.World) :
    Except Error Outcome → Except Error Outcome → Prop
  | value {v v'} : B.value w v v' → Asked B w (.ok (.value v)) (.ok (.value v'))
  | fresh {vs vs'} : Forall₂ (B.value w) vs vs' →
      Asked B w (.ok (.fresh vs)) (.ok (.fresh vs'))
  | each {f f' calls calls'} : B.value w f f' →
      Forall₂ (Forall₂ (B.value w)) calls calls' →
      Asked B w (.ok (.each f calls)) (.ok (.each f' calls'))
  | error {e e'} : B.error e e' → Asked B w (.error e) (.error e')

/-- A bridge between two evaluators of this language. -/
structure Lawful (B : Bridge σ τ) : Prop where
  error_eval : ∀ fault, B.error (.eval fault none) (.eval fault none)
  bool : ∀ w b, B.value w (.bool b) (.bool b)
  unspecified : ∀ w, B.value w .unspecified .unspecified
  truthy : ∀ {w a b}, B.value w a b → a.isTruthy = b.isTruthy
  list : ∀ {w vs vs'}, Forall₂ (B.value w) vs vs' →
    B.Tracks w (Eval.list vs) (Eval.list vs') B.value
  primitive : ∀ {w p b}, B.value w (.primitive p) b → b = .primitive p
  created : ∀ {w a b}, B.value w a b → (∀ p, a ≠ .primitive p) → ∀ p, b ≠ .primitive p
  call : ∀ {w args args'} (p : Primitive), Forall₂ (B.value w) args args' →
    B.Asked w (p.call args) (p.call args')

/-- Corresponding expressions are evaluated alike, now and later. -/
def Agrees (w : B.World) (R : B.World → Value → Value → Prop) (ev : Value → Eval σ Value)
    (ev' : Value → Eval τ Value) : Prop :=
  ∀ v a b, B.le w v → R v a b → B.Tracks v (ev a) (ev' b) B.value

/-- How two clauses of a `cond` may correspond. The last case is a test that no
run gets past, so that nothing need be known of the body behind it. -/
inductive ClausesMatch (R : B.World → Value → Value → Prop) (ev : Value → Eval σ Value)
    (ev' : Value → Eval τ Value) (w : B.World) (c c' : Value) : Prop
  | refused {e e'} : Form.clause c = .error e → Form.clause c' = .error e' →
      B.error e e' → ClausesMatch R ev ev' w c c'
  | otherwise {t t' b b'} : Form.clause c = .ok (t, b) → Form.clause c' = .ok (t', b') →
      Form.isElse t = true → Form.isElse t' = true → Forall₂ (R w) b b' →
      ClausesMatch R ev ev' w c c'
  | tested {t t' b b'} : Form.clause c = .ok (t, b) → Form.clause c' = .ok (t', b') →
      Form.isElse t = false → Form.isElse t' = false → R w t t' → Forall₂ (R w) b b' →
      ClausesMatch R ev ev' w c c'
  | stuck {t t' b b'} : Form.clause c = .ok (t, b) → Form.clause c' = .ok (t', b') →
      Form.isElse t = false → Form.isElse t' = false →
      B.Tracks w (ev t) (ev' t') (fun _ _ _ => False) → ClausesMatch R ev ev' w c c'

theorem Agrees.later {v w : B.World} {R : B.World → Value → Value → Prop}
    {ev : Value → Eval σ Value} {ev' : Value → Eval τ Value}
    (h : B.Agrees v R ev ev') (hle : B.le v w) : B.Agrees w R ev ev' :=
  fun u a b hu => h u a b (B.le_trans hle hu)

namespace Lawful

variable {S : Scoping σ ρ} {S' : Scoping τ ρ'} {w : B.World}
  {R C : B.World → Value → Value → Prop} {ev : Value → Eval σ Value}
  {ev' : Value → Eval τ Value}

theorem evalSequence (hB : B.Lawful) (hR : B.Persists R)
    {body body' : List Value} (hbody : Forall₂ (R w) body body') (hev : B.Agrees w R ev ev') :
    B.Tracks w (Scoping.evalSequence ev body) (Scoping.evalSequence ev' body') B.value := by
  induction body generalizing w body' with
  | nil =>
      cases hbody
      exact .throw (hB.error_eval _)
  | cons a rest ih =>
      obtain ⟨a', rest', ha, hrest, rfl⟩ := List.forall₂_cons_left_iff.1 hbody
      cases hrest with
      | nil => exact hev w a a' (B.le_refl w) ha
      | cons hb hrest =>
          refine .bind (hev w a a' (B.le_refl w) ha) fun v _ _ hv _ => ?_
          exact ih (.cons (hR _ _ _ _ hv hb) (hrest.imp fun _ _ => hR _ _ _ _ hv)) (hev.later hv)

theorem clauseBody (hB : B.Lawful) (hR : B.Persists R)
    {outcome outcome' : Value} {body body' : List Value} {next : Eval σ Value}
    {next' : Eval τ Value} (hout : B.value w outcome outcome')
    (hbody : Forall₂ (R w) body body') (hev : B.Agrees w R ev ev')
    (hnext : B.Tracks w next next' B.value) :
    B.Tracks w
      (if outcome.isTruthy then
        if body.isEmpty then return outcome else Scoping.evalSequence ev body
      else next)
      (if outcome'.isTruthy then
        if body'.isEmpty then return outcome' else Scoping.evalSequence ev' body'
      else next') B.value := by
  rw [← hB.truthy hout]
  split
  · have hempty : body.isEmpty = body'.isEmpty := by
      cases hbody <;> rfl
    rw [← hempty]
    split
    · exact .pure hout
    · exact hB.evalSequence hR hbody hev
  · exact hnext

theorem evalClauses (hB : B.Lawful) (hR : B.Persists R)
    (hC : B.Persists C)
    {clauses clauses' : List Value} (hclauses : Forall₂ (C w) clauses clauses')
    (hmatch : ∀ v c c', B.le w v → C v c c' → B.ClausesMatch R ev ev' v c c')
    (hev : B.Agrees w R ev ev') :
    B.Tracks w (Scoping.evalClauses ev clauses) (Scoping.evalClauses ev' clauses') B.value := by
  induction clauses generalizing w clauses' with
  | nil =>
      cases hclauses
      exact .pure (hB.unspecified w)
  | cons c rest ih =>
      obtain ⟨c', rest', hc, hrest, rfl⟩ := List.forall₂_cons_left_iff.1 hclauses
      have hlater : ∀ v, B.le w v →
          B.Tracks v (Scoping.evalClauses ev rest) (Scoping.evalClauses ev' rest') B.value :=
        fun v hv => ih (hrest.imp fun _ _ => hC _ _ _ _ hv)
          (fun u c c' hu => hmatch u c c' (B.le_trans hv hu)) (hev.later hv)
      rw [Scoping.evalClauses, Scoping.evalClauses]
      cases hmatch w c c' (B.le_refl w) hc with
      | refused h h' he =>
          rw [h, h']
          exact .throw he
      | otherwise h h' ht ht' hbody =>
          rw [h, h']
          simp only [Eval.ofExcept, pure_bind, ht, ht', if_true]
          exact hB.clauseBody hR (hB.bool w true) hbody hev (hlater w (B.le_refl w))
      | tested h h' ht ht' htest hbody =>
          rw [h, h']
          simp only [Eval.ofExcept, pure_bind, ht, ht', Bool.false_eq_true, if_false]
          refine .bind (hev w _ _ (B.le_refl w) htest) fun v _ _ hv hout => ?_
          exact hB.clauseBody hR hout (hbody.imp fun _ _ => hR _ _ _ _ hv) (hev.later hv)
            (hlater v hv)
      | stuck h h' ht ht' htest =>
          rw [h, h']
          simp only [Eval.ofExcept, pure_bind, ht, ht', Bool.false_eq_true, if_false]
          exact .bind htest fun _ _ _ _ hfalse => hfalse.elim

/-- Calls of corresponding procedures, if calls of created ones are. The calls
that `map` asks for have smaller arguments, which is what the induction is on. -/
theorem apply (hB : B.Lawful) {ev : ρ → Value → Eval σ Value} {ev' : ρ' → Value → Eval τ Value}
    (hcreated : ∀ v f f' args args', B.le w v → (∀ p, f ≠ .primitive p) → B.value v f f' →
      Forall₂ (B.value v) args args' →
      B.Tracks v (S.apply ev f args) (S'.apply ev' f' args') B.value)
    {f f' : Value} {args args' : List Value} (hf : B.value w f f')
    (hargs : Forall₂ (B.value w) args args') :
    B.Tracks w (S.apply ev f args) (S'.apply ev' f' args') B.value := by
  induction hn : sizeOf args using Nat.strongRecOn generalizing w f f' args args' with
  | ind n ih =>
      by_cases hp : ∃ p, f = .primitive p
      · obtain ⟨p, rfl⟩ := hp
        cases hB.primitive hf
        rw [Scoping.apply_primitive, Scoping.apply_primitive]
        have hcall := hB.call p hargs
        generalize hr : p.call args = r at hcall
        generalize p.call args' = r' at hcall
        cases hcall with
        | value hv => exact .pure hv
        | fresh hvs => exact hB.list hvs
        | error he => exact .throw he
        | @each g g' calls calls' hg hcalls =>
            simp only [Eval.ofExcept, pure_bind, Scoping.perform]
            refine .bind (Tracks.mapM
              (R := fun v c c' => sizeOf c < n ∧ Forall₂ (B.value v) c c') (Q := B.value)
              (fun _ _ _ _ hle h => ⟨h.1, h.2.imp fun _ _ => B.value_mono _ _ _ _ hle⟩)
              B.value_mono
              ?_ ?_) fun v vs vs' _ hvs => hB.list hvs
            · have hsmall : ∀ c ∈ calls, sizeOf c < n :=
                fun c hc => hn ▸ Primitive.sizeOf_lt_of_call_eq_each hr hc
              exact (List.forall₂_and_left _ _).2 ⟨hsmall, hcalls⟩
            · intro v c c' hv hc
              exact ih (sizeOf c) hc.1 (fun u f f' a a' hu => hcreated u f f' a a'
                (B.le_trans hv hu)) (B.value_mono _ _ _ _ hv hg) hc.2 rfl
      · exact hcreated w f f' args args' (B.le_refl w) (fun p h => hp ⟨p, h⟩) hf hargs

end Lawful

end Bridge

end TwinScheme
