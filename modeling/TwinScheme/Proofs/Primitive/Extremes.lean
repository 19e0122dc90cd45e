import Mathlib
import TwinScheme.Primitive.Run
import TwinScheme.Proofs.Number.Images

/-!
# The extremes of integers

`max` and `min` return one of their arguments, but find it by comparing the
arguments' images among the floats. So what they return is the extreme as far as
floats can tell: no other argument has a better image, and of several arguments
with that image it is the first. For integers of up to fifty-three bits, which
are their own images, that is the extreme itself. For longer ones it need not be;
it depends on the order of the arguments, and may be off by 1024.

The fold that finds the best argument is the one by which `List.argmax` and
`List.argmin` are defined, so what is known of these carries over.
-/

namespace TwinScheme.Primitive

open Number (image)

variable {ns : List Int64} {n m : Int64}

/-! ## The first of the best images -/

/-- One of some integers whose image comes last in an order, and that is the first
of those with this image. Any other integer that comes after it has the same image,
so it is not far away, and there is none among integers of up to fifty-three bits. -/
structure Foremost (le : Int → Int → Prop) (ns : List Int64) (m : Int64) : Prop where
  mem : m ∈ ns
  last : ∀ n ∈ ns, le (image n) (image m)
  first : ∀ n ∈ ns, image n = image m → ns.idxOf m ≤ ns.idxOf n
  near : ∀ n ∈ ns, le n.toInt m.toInt ∨
    image n = image m ∧ (n.toInt - m.toInt).natAbs ≤ 1024
  small : (∀ n ∈ ns, n.toInt.natAbs ≤ 2 ^ 53) → ∀ n ∈ ns, le n.toInt m.toInt

theorem near_of_image_eq (h : image n = image m) : (n.toInt - m.toInt).natAbs ≤ 1024 := by
  have hn := Number.image_near n
  have hm := Number.image_near m
  omega

/-- Images respect both orders that are used here, which is all that is needed of
them beyond the fold. -/
theorem Foremost.of_last {le : Int → Int → Prop} [Std.Total le] [Std.Antisymm le]
    (hmono : ∀ {a b : Int64}, le a.toInt b.toInt → le (image a) (image b)) (hmem : m ∈ ns)
    (hlast : ∀ n ∈ ns, le (image n) (image m))
    (hfirst : ∀ n ∈ ns, image n = image m → ns.idxOf m ≤ ns.idxOf n) : Foremost le ns m where
  mem := hmem
  last := hlast
  first := hfirst
  near n hn := by
    rcases Std.Total.total (r := le) n.toInt m.toInt with h | h
    · exact .inl h
    · have heq : image n = image m := Std.Antisymm.antisymm _ _ (hlast n hn) (hmono h)
      exact .inr ⟨heq, near_of_image_eq heq⟩
  small hsmall n hn := by
    rw [← Number.image_of_small (hsmall n hn), ← Number.image_of_small (hsmall m hmem)]
    exact hlast n hn

theorem foremost_of_argmax (h : ns.argmax image = some m) : Foremost (· ≤ ·) ns m := by
  obtain ⟨hmem, hlast, hfirst⟩ := List.argmax_eq_some_iff.1 h
  exact .of_last Number.image_mono hmem hlast fun n hn heq => hfirst n hn heq.ge

theorem foremost_of_argmin (h : ns.argmin image = some m) : Foremost (· ≥ ·) ns m := by
  obtain ⟨hmem, hlast, hfirst⟩ := List.argmin_eq_some_iff.1 h
  exact .of_last Number.image_mono hmem hlast fun n hn heq => hfirst n hn heq.le

/-! ## The fold -/

theorem mapM_imaged? (ns : List Int64) :
    (ns.map Value.int).mapM Arithmetic.imaged? =
      some (ns.map fun n => (.int n, Number.toFloat n)) := by
  induction ns with
  | nil => rfl
  | cons n ns ih =>
      rw [List.map_cons, List.mapM_cons, ih]
      rfl

theorem any_isFloat (ns : List Int64) : (ns.map Value.int).any Arithmetic.isFloat = false := by
  induction ns with
  | nil => rfl
  | cons n ns ih => exact ih

/-- The best of some integers with their floats is the best of the integers, with
its float. -/
theorem foldl_imaged {better : Float → Float → Bool} {r : Int64 → Int64 → Prop} [DecidableRel r]
    (hbetter : ∀ n m, better (Number.toFloat n) (Number.toFloat m) = decide (r n m))
    (ns : List Int64) (m : Int64) :
    ∃ k, ns.foldl (List.argAux r) (some m) = some k ∧
      (ns.map fun n => ((.int n, Number.toFloat n) : Value × Float)).foldl
        (fun best next => if better next.2 best.2 then next else best) (.int m, Number.toFloat m) =
      (.int k, Number.toFloat k) := by
  induction ns generalizing m with
  | nil => exact ⟨m, rfl, rfl⟩
  | cons n ns ih =>
      rw [List.map_cons, List.foldl_cons, List.foldl_cons, hbetter, List.argAux]
      by_cases h : r n m
      · simp only [h, if_true, decide_true]
        exact ih n
      · simp only [h, if_false, decide_false, Bool.false_eq_true]
        exact ih m

theorem extreme_of_ne_nil (p : Primitive) (better : Float → Float → Bool)
    (r : Int64 → Int64 → Prop) [DecidableRel r]
    (hbetter : ∀ n m, better (Number.toFloat n) (Number.toFloat m) = decide (r n m))
    (hne : ns ≠ []) :
    ∃ m, ns.foldl (List.argAux r) none = some m ∧
      Arithmetic.extreme p better (ns.map .int) = .ok (.int m) := by
  obtain ⟨n, ns, rfl⟩ := List.exists_cons_of_ne_nil hne
  obtain ⟨m, hm, hbest⟩ := foldl_imaged hbetter ns n
  refine ⟨m, hm, ?_⟩
  rw [Arithmetic.extreme, mapM_imaged?, any_isFloat, List.map_cons]
  dsimp only
  rw [hbest]
  rfl

/-- `max` and `min` of integers return the first of the arguments whose image among
the floats is greatest or least. -/
theorem extremes_by_images (ns : List Int64) (hne : ns ≠ []) :
    (∃ m, Foremost (· ≤ ·) ns m ∧ Primitive.run .max (ns.map .int) = .ok (.value (.int m))) ∧
    ∃ m, Foremost (· ≥ ·) ns m ∧ Primitive.run .min (ns.map .int) = .ok (.value (.int m)) := by
  constructor
  · obtain ⟨m, hargmax, hmax⟩ := extreme_of_ne_nil .max (fun x y => x > y)
      (fun n m => image m < image n) (fun n m => decide_eq_decide.2 Number.toFloat_lt_iff) hne
    exact ⟨m, foremost_of_argmax hargmax, congrArg (Except.map Outcome.value) hmax⟩
  · obtain ⟨m, hargmin, hmin⟩ := extreme_of_ne_nil .min (fun x y => x < y)
      (fun n m => image n < image m) (fun n m => decide_eq_decide.2 Number.toFloat_lt_iff) hne
    exact ⟨m, foremost_of_argmin hargmin, congrArg (Except.map Outcome.value) hmin⟩

/-- The first two arguments have one image, so `max` keeps the first of them; `min`
is exact, since there is one argument only with its image. -/
theorem extremes_by_images_collision :
    let ns : List Int64 := [9007199254740993, 9007199254740992, 5]
    ns ≠ [] ∧ Primitive.run .max (ns.map .int) = .ok (.value (.int 9007199254740993)) ∧
      Primitive.run .min (ns.map .int) = .ok (.value (.int 5)) := by
  intro ns
  have hne : ns ≠ [] := List.cons_ne_nil _ _
  obtain ⟨⟨m, hm, hmax⟩, k, hk, hmin⟩ := extremes_by_images ns hne
  have hmember : ∀ {n : Int64}, n ∈ ns → n = 9007199254740993 ∨ n = 9007199254740992 ∨ n = 5 := by
    simp only [ns, List.mem_cons, List.not_mem_nil, or_false, imp_self, implies_true]
  refine ⟨hne, ?_, ?_⟩
  · rcases hmember hm.mem with rfl | rfl | rfl
    · exact hmax
    · exact absurd (hm.first 9007199254740993 (by decide) (by decide +kernel)) (by decide)
    · exact absurd (hm.last 9007199254740993 (by decide)) (by decide +kernel)
  · rcases hmember hk.mem with rfl | rfl | rfl
    · exact absurd (hk.last 5 (by decide)) (by decide +kernel)
    · exact absurd (hk.last 5 (by decide)) (by decide +kernel)
    · exact hmin

/-- What `max` returns need not be the greatest. -/
theorem not_max_greatest :
    ¬∀ ns : List Int64, ns ≠ [] → ∃ m : Int64,
      Primitive.run .max (ns.map .int) = .ok (.value (.int m)) ∧ ∀ n ∈ ns, n.toInt ≤ m.toInt := by
  intro h
  obtain ⟨m, hmax, hgreatest⟩ := h [9007199254740992, 9007199254740993] (List.cons_ne_nil _ _)
  have hfirst : Primitive.run .max [.int 9007199254740992, .int 9007199254740993] =
      .ok (.value (.int 9007199254740992)) := by rfl
  obtain rfl : m = 9007199254740992 := by
    injection hmax.symm.trans hfirst with hvalue
    injection hvalue with hint
    injection hint
  exact absurd (hgreatest 9007199254740993 (by decide)) (by decide)

end TwinScheme.Primitive
