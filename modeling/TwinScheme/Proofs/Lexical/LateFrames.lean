import TwinScheme.Proofs.Evaluator.LateStart
import TwinScheme.Proofs.Lexical.Frames

/-!
# Frames that are added late

A heap in which a program runs has behind it, in the frames from some number on,
the frames of a heap in which nothing was before. A look-up through a shifted
chain asks the frames that stand opposite those of the chain, so it ends where the
other one does; writes and new frames keep the heaps opposite each other.
-/

namespace TwinScheme

variable {δ : Shift}

/-- The frames of one heap are, from some number on, those of another. -/
structure Heap.Late (δ : Shift) (h h' : Heap) : Prop where
  size : h'.frames.size = h.frames.size + δ.frames
  frame : ∀ i, h'.frame (i + δ.frames) = (h.frame i).shift δ

namespace Heap.Late

variable {h h' : Heap} (hh : h.Late δ h')

include hh

theorem find? (env : Environment) (x : String) :
    h'.find? (env.shift δ) x = (h.find? env x).map (·.shift δ) := by
  rw [find?_eq_findSome?, find?_eq_findSome?, Environment.frames_shift, List.findSome?_map,
    List.map_findSome?]
  refine congrArg (List.findSome? · env.frames) (funext fun i => ?_)
  rw [Function.comp_apply, hh.frame, Bindings.get?_shift]
  rfl

theorem holder? (env : Environment) (x : String) :
    h'.holder? (env.shift δ) x = (h.holder? env x).map (· + δ.frames) := by
  rw [Heap.holder?, Heap.holder?, Environment.frames_shift, List.find?_map]
  refine congrArg (fun p => (List.find? p env.frames).map (· + δ.frames)) (funext fun i => ?_)
  rw [Function.comp_apply, hh.frame, Bindings.contains_shift]

theorem write (i : Nat) (x : String) (v : Value) :
    (h.write i x v).Late δ (h'.write (i + δ.frames) x (v.shift δ)) where
  size := by rw [size_write, size_write, hh.size]
  frame j := by
    by_cases hij : i = j
    · subst hij
      by_cases hi : i < h.frames.size
      · rw [frame_write_self hi, frame_write_self (by rw [hh.size]; omega), hh.frame,
          Bindings.shift_insert]
      · rw [frame_of_size_le (by rw [size_write, hh.size]; omega),
          frame_of_size_le (by rw [size_write]; omega), Bindings.shift_empty]
    · rw [frame_write_of_ne hij, frame_write_of_ne (by omega), hh.frame]

theorem define (env : Environment) (x : String) (v : Value) :
    (h.define env x v).Late δ (h'.define (env.shift δ) x (v.shift δ)) :=
  hh.write env.innermost x v

theorem overwrite (env : Environment) (x : String) (v : Value) :
    (h.overwrite env x v).Late δ (h'.overwrite (env.shift δ) x (v.shift δ)) := by
  rw [Heap.overwrite, Heap.overwrite, hh.holder?]
  cases h.holder? env x with
  | none => exact hh
  | some i => exact hh.write i x v

theorem push (b : Bindings) : (h.push b).Late δ (h'.push (b.shift δ)) where
  size := by rw [size_push, size_push, hh.size, Nat.add_right_comm]
  frame j := by
    by_cases hj : j = h.frames.size
    · rw [hj, ← hh.size, frame_push_self, frame_push_self]
    · rw [frame_push_of_ne hj, frame_push_of_ne (by rw [hh.size]; omega), hh.frame]

theorem extend (env : Environment) (b : Bindings) :
    (h'.extend (env.shift δ) (b.shift δ)).1 = (h.extend env b).1.shift δ := by
  show Environment.mk h'.frames.size (env.shift δ).frames = _
  rw [hh.size]
  rfl

end Heap.Late

/-- Before anything is added, any heap is one to which all is added late. -/
theorem Heap.late_empty (h : Heap) (k : Nat) : Heap.empty.Late ⟨k, h.frames.size⟩ h where
  size := (Nat.zero_add _).symm
  frame i := by
    rw [frame_of_size_le (Nat.le_add_left h.frames.size i), frame_of_size_le (Nat.zero_le i),
      Bindings.shift_empty]

theorem builtins_shift :
    (Bindings.empty.insertAll builtins).shift δ = Bindings.empty.insertAll builtins := by
  ext x : 1
  rw [Bindings.get?_shift, get?_insertAll_builtins, builtin?_shift]

/-- A top-level environment that is made late. -/
theorem Heap.Late.topLevel {h h' : Heap} (hh : h.Late δ h') :
    h.topLevel.2.Late δ h'.topLevel.2 ∧ h'.topLevel.1 = h.topLevel.1.shift δ := by
  have hbuiltins := hh.push (Bindings.empty.insertAll builtins)
  rw [builtins_shift] at hbuiltins
  have henv : Environment.mk h'.frames.size [] = (Environment.mk h.frames.size []).shift δ := by
    rw [Environment.shift, hh.size]
    rfl
  rw [Heap.topLevel, Heap.topLevel, henv]
  exact ⟨hbuiltins.push ∅, hbuiltins.extend ⟨h.frames.size, []⟩ ∅⟩

/-! ## The discipline -/

theorem Lexical.frame_shift (params : List String) (args : List Value) :
    (Lexical.frame params args).shift δ = Lexical.frame params (args.map (·.shift δ)) := by
  rw [Lexical.frame, Lexical.frame, Bindings.shift_insertAll, List.zip_map_right]
  rfl

theorem Lexical.binderName_checks (pair : Value × Value) :
    Checks (fun named => (named.1, named.2.shift δ)) (Lexical.binderName pair)
      (Lexical.binderName (pair.1.shift δ, pair.2.shift δ)) := by
  obtain ⟨v, expr⟩ := pair
  cases v with
  | symbol name => exact .ok rfl
  | _ => exact .refused (.type (.bindingNotSymbol (Value.like_shift δ _)))

theorem Lexical.callOfLet_shifts (named : List (String × Value)) (body : List Value) :
    Fresh.Shifts δ (·.shift δ) (Lexical.callOfLet named body)
      (Lexical.callOfLet (named.map fun pair => (pair.1, pair.2.shift δ))
        (body.map (·.shift δ))) := by
  intro next
  rw [Lexical.callOfLet_eq, Lexical.callOfLet_eq]
  simp only [Keyword.form, Value.shift_list, Value.shift_symbol, List.map_cons, List.map_map]
  rw [Nat.add_right_comm next 1, Nat.add_right_comm next 2, Nat.add_right_comm next 3,
    Nat.add_right_comm next 4]
  rfl

theorem Scoping.lexical_shifts (δ : Shift) :
    Scoping.lexical.Shifts δ (Environment.shift δ) (Heap.Late δ) where
  find? env x hh := hh.find? env x
  define env x v hh := hh.define env x v
  overwrite env x v hh := hh.overwrite env x v
  close env params body := by
    refine Checked.map (Form.parameterNames_checks params) ?_
    rintro names _ rfl i
    rw [Value.shift_closure]
  expand w pairs body := by
    refine .bind (check_late (Checks.mapM Lexical.binderName_checks pairs)) ?_
    rintro v named _ - rfl
    refine .bind (supply_late (Lexical.callOfLet_shifts named body)) ?_
    rintro u e _ - rfl
    exact .pure rfl
  enter w f args := by
    cases f with
    | closure id params body env =>
        have henter : Scoping.lexical.enter = Lexical.enter := rfl
        rw [Value.shift_closure, henter, Lexical.enter, Lexical.enter, List.length_map]
        split
        · exact .throw (.arity _ _)
        · rintro m n ⟨hsupply, hh⟩
          have hsize := hh.extend env (Lexical.frame params args)
          have hframes := hh.push (Lexical.frame params args)
          rw [Lexical.frame_shift] at hsize hframes
          refine .ok ((late δ (Heap.Late δ)).le_refl w) ⟨hsupply, hframes⟩ ?_
          exact Prod.ext hsize rfl
    | _ => exact .throw (Error.Raised.same (.type (.notApplicable (Value.like_shift δ _))))
  leave body e f he := he.within (Value.like_shift δ body)

end TwinScheme
