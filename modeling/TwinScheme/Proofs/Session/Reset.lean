import TwinScheme.Proofs.Lexical.LateFrames
import TwinScheme.Proofs.Session.Lines
import TwinScheme.Proofs.Textual.LateTrees

/-!
# A reset session and a new one

A reset leaves everything that was made in memory and builds a new top level
beside it. From then on the session does what a new session does, late: it takes
identities and adds frames with higher numbers. Assignments to primitives went to
the frames of before, which nothing refers to any more. So whoever gives lines to
the two and looks at the answers cannot tell them apart.
-/

namespace TwinScheme

open List (Forall₂)

/-- Values with the same two texts. -/
structure Value.LooksLike (v w : Value) : Prop where
  display : v.display = w.display
  describe : v.describe = w.describe

/-- Answers that nobody can tell apart. -/
inductive SameReply : Except Error Value → Except Error Value → Prop
  | value {v w : Value} : v.LooksLike w → SameReply (.ok v) (.ok w)
  | error {e f : Error} : e.Same f → SameReply (.error e) (.error f)

/-- The same names, bound to values that look alike. -/
def Bindings.LooksLike (b b' : Bindings) : Prop :=
  Forall₂ (fun entry entry' => entry.1 = entry'.1 ∧ entry.2.LooksLike entry'.2)
    b.entries b'.entries

theorem Value.LooksLike.refl (v : Value) : v.LooksLike v :=
  ⟨rfl, rfl⟩

/-- Only the unspecified value is described as such. -/
theorem Value.head?_describe {v : Value} (h : v ≠ .unspecified) :
    v.describe.toList.head? ≠ some 'U' := by
  have happend : ∀ {c : Char} (s t : String), s.toList.head? = some c →
      (s ++ t).toList.head? = some c := by
    intro c s t hs
    rw [String.toList_append, List.head?_append, hs]
    rfl
  have hother : ∀ {c : Char} {text : String}, text.toList.head? = some c → c ≠ 'U' →
      text.toList.head? ≠ some 'U' := by
    rintro c text hc hne hU
    exact hne (Option.some.inj (hc.symm.trans hU))
  cases v with
  | int n => exact hother (happend _ _ (happend "Integer(" _ rfl)) (by decide)
  | float x => exact hother (happend _ _ (happend "Float(" _ rfl)) (by decide)
  | symbol name => exact hother (happend _ _ (happend "Symbol(" _ rfl)) (by decide)
  | bool b => exact hother (happend _ _ (happend "Bool(" _ rfl)) (by decide)
  | list => exact hother (happend _ _ (happend "List(" _ rfl)) (by decide)
  | primitive p => exact hother (happend _ _ (happend "BuiltinFunction(" _ rfl)) (by decide)
  | closure =>
      exact hother (happend _ _ (happend _ _ (happend _ _ (happend "Closure(params=[" _ rfl))))
        (by decide)
  | lambda =>
      exact hother (happend _ _ (happend _ _ (happend _ _ (happend "Lambda(params=[" _ rfl))))
        (by decide)
  | unspecified => exact absurd rfl h

theorem Value.LooksLike.symm {v w : Value} (h : v.LooksLike w) : w.LooksLike v :=
  ⟨h.display.symm, h.describe.symm⟩

theorem Value.LooksLike.eq_unspecified {v w : Value} (h : v.LooksLike w) (hw : w = .unspecified) :
    v = .unspecified := by
  by_contra hv
  have hdescribe : v.describe = "Unspecified" := h.describe.trans (by rw [hw]; rfl)
  exact Value.head?_describe hv (by rw [hdescribe]; rfl)

theorem SameReply.refl (reply : Except Error Value) : SameReply reply reply := by
  cases reply with
  | error e => exact .error (.refl e)
  | ok v => exact .value (.refl v)

theorem Bindings.LooksLike.refl (b : Bindings) : b.LooksLike b :=
  List.forall₂_same.2 fun _ _ => ⟨rfl, .refl _⟩

variable {δ : Shift}

theorem Value.looksLike_shift (δ : Shift) (v : Value) : v.LooksLike (v.shift δ) :=
  ⟨(v.display_shift δ).symm, (v.describe_shift δ).symm⟩

theorem Bindings.looksLike_shift (δ : Shift) (b : Bindings) : b.LooksLike (b.shift δ) :=
  List.forall₂_map_right_iff.2
    (List.forall₂_same.2 fun entry _ => ⟨rfl, entry.2.looksLike_shift δ⟩)

section

variable {σ ρ : Type} {R : σ → σ → Prop}

theorem sameReply_of_ends {r r' : Except Error Value × Memory σ}
    (h : (late δ R).Ends () (late δ R).value r r') :
    SameReply r.1 r'.1 ∧ (late δ R).memory () r.2 r'.2 := by
  cases h with
  | @ok _ v _ _ _ _ hm hv =>
      obtain rfl := hv
      exact ⟨.value (v.looksLike_shift δ), hm⟩
  | error _ hm he => exact ⟨.error he, hm⟩
  | excused he => exact he.elim

/-- What is read is read late as its shift, and evaluated as that. -/
theorem Scoping.Shifts.evaluate_datum {S : Scoping σ ρ} {place : ρ → ρ} (hS : S.Shifts δ place R)
    (limit : Nat) (env : ρ) (d : Datum) {m n : Memory σ} (h : (late δ R).memory () m n) :
    let r := Eval.runFrom ⟨(d.toValue m.supply).2, m.bound⟩
      (S.evaluate limit env (d.toValue m.supply).1)
    let r' := Eval.runFrom ⟨(d.toValue n.supply).2, n.bound⟩
      (S.evaluate limit (place env) (d.toValue n.supply).1)
    SameReply r.1 r'.1 ∧ (late δ R).memory () r.2 r'.2 := by
  obtain ⟨hsupply, hR⟩ := h
  rw [hsupply, d.toValue_shifts δ m.supply]
  exact sameReply_of_ends (hS.evaluate limit env (d.toValue m.supply).1 _ _ ⟨rfl, hR⟩)

end

namespace Session

/-- A session and another that does the same, late. -/
inductive LateBy (δ : Shift) : Session → Session → Prop
  | lexical {limits top m n} : n.supply = m.supply + δ.identities → m.bound.Late δ n.bound →
      LateBy δ (.lexical limits top m) (.lexical limits (top.shift δ) n)
  | textual {limits m n} : n.supply = m.supply + δ.identities → n.bound = m.bound.shift δ →
      LateBy δ (.textual limits m) (.textual limits n)

namespace LateBy

variable {s t : Session}

theorem limits_eq (h : LateBy δ s t) : t.limits = s.limits := by
  cases h <;> rfl

theorem definitions (h : LateBy δ s t) : s.definitions.LooksLike t.definitions := by
  cases h with
  | @lexical _ top m n _ hlate =>
      show (m.bound.frame top.innermost).LooksLike (n.bound.frame (top.innermost + δ.frames))
      rw [hlate.frame]
      exact Bindings.looksLike_shift δ _
  | @textual _ m n _ hbound =>
      show m.bound.LooksLike n.bound
      rw [hbound]
      exact Bindings.looksLike_shift δ _

theorem evalDatum (h : LateBy δ s t) (d : Datum) :
    SameReply (s.evalDatum d).1 (t.evalDatum d).1 ∧
      LateBy δ (s.evalDatum d).2 (t.evalDatum d).2 := by
  cases h with
  | @lexical limits top m n hsupply hlate =>
      obtain ⟨hreply, hm⟩ :=
        (Scoping.lexical_shifts δ).evaluate_datum limits.depth top d ⟨hsupply, hlate⟩
      rw [evalDatum_lexical, evalDatum_lexical]
      exact ⟨hreply, .lexical hm.1 hm.2⟩
  | @textual limits m n hsupply hbound =>
      obtain ⟨hreply, hm⟩ :=
        (Scoping.textual_shifts δ).evaluate_datum limits.depth () d ⟨hsupply, hbound⟩
      rw [evalDatum_textual, evalDatum_textual]
      exact ⟨hreply, .textual hm.1 hm.2⟩

theorem evalLine (h : LateBy δ s t) (line : String) :
    SameReply (s.evalLine line).1 (t.evalLine line).1 ∧
      LateBy δ (s.evalLine line).2 (t.evalLine line).2 := by
  rw [Session.evalLine, Session.evalLine, h.limits_eq]
  cases Datum.parse s.limits.nesting line with
  | error fault => exact ⟨.error (.read fault), h⟩
  | ok d => exact h.evalDatum d

theorem after (h : LateBy δ s t) (lines : List String) :
    LateBy δ (s.after lines) (t.after lines) := by
  induction lines generalizing s t with
  | nil => exact h
  | cons line rest ih => exact ih (h.evalLine line).2

theorem replies (h : LateBy δ s t) (lines : List String) :
    Forall₂ SameReply (s.replies lines) (t.replies lines) := by
  induction lines generalizing s t with
  | nil => exact .nil
  | cons line rest ih => exact .cons (h.evalLine line).1 (ih (h.evalLine line).2)

end LateBy

/-- A session that is reset is a new session that is late by all that was made. -/
theorem reset_lateBy (s : Session) : ∃ δ, LateBy δ (start s.strategy s.limits) s.reset := by
  cases s with
  | lexical limits top m =>
      refine ⟨⟨m.supply, m.bound.frames.size⟩, ?_⟩
      obtain ⟨hlate, htop⟩ := (m.bound.late_empty m.supply).topLevel
      show LateBy _ (.lexical limits Heap.empty.topLevel.1 ⟨0, Heap.empty.topLevel.2⟩)
        (.lexical limits m.bound.topLevel.1 ⟨m.supply, m.bound.topLevel.2⟩)
      rw [htop]
      exact .lexical (Nat.zero_add _).symm hlate
  | textual limits m => exact ⟨⟨m.supply, 0⟩, .textual (Nat.zero_add _).symm rfl⟩

/-! ## Sessions that nobody can tell apart -/

/-- Sessions that answer alike whatever lines they are given, and then have the
same definitions. -/
structure Alike (s t : Session) : Prop where
  strategy : s.strategy = t.strategy
  limits : s.limits = t.limits
  replies : ∀ lines, Forall₂ SameReply (s.replies lines) (t.replies lines)
  definitions : ∀ lines, (s.after lines).definitions.LooksLike (t.after lines).definitions

namespace Alike

variable {s t : Session}

theorem refl (s : Session) : s.Alike s where
  strategy := rfl
  limits := rfl
  replies _ := List.forall₂_same.2 fun _ _ => .refl _
  definitions _ := .refl _

/-- They answer one line alike, and afterwards nobody can tell them apart. -/
theorem evalLine (h : s.Alike t) (line : String) :
    SameReply (s.evalLine line).1 (t.evalLine line).1 ∧
      (s.evalLine line).2.Alike (t.evalLine line).2 where
  left := (List.forall₂_cons.1 (h.replies [line])).1
  right := {
    strategy := by
      rw [(s.later_evalLine line).strategy_eq, (t.later_evalLine line).strategy_eq, h.strategy]
    limits := by
      rw [(s.later_evalLine line).limits_eq, (t.later_evalLine line).limits_eq, h.limits]
    replies := fun lines => (List.forall₂_cons.1 (h.replies (line :: lines))).2
    definitions := fun lines => h.definitions (line :: lines) }

end Alike

theorem reset_alike (s : Session) : (start s.strategy s.limits).Alike s.reset := by
  obtain ⟨δ, hlate⟩ := s.reset_lateBy
  exact {
    strategy := by rw [strategy_start, strategy_reset]
    limits := by rw [limits_start, limits_reset]
    replies := hlate.replies
    definitions := fun lines => (hlate.after lines).definitions }

/-- Whatever lines a session was given before a reset, and whatever lines it is
given after it: each of these has the answer that it has in a new session with the
same limits, and in the end the same names are defined, with values that look
alike. -/
theorem reset_indistinguishable (strategy : Strategy) (limits : Limits)
    (history lines : List String) :
    let new := start strategy limits
    let again := (new.after history).reset
    Forall₂ SameReply (new.replies lines) (again.replies lines) ∧
      (new.after lines).definitions.LooksLike (again.after lines).definitions := by
  intro new again
  have halike := (new.after history).reset_alike
  rw [strategy_after, limits_after, strategy_start, limits_start] at halike
  exact ⟨halike.replies lines, halike.definitions lines⟩

end Session

end TwinScheme
