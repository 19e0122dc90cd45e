import Mathlib
import TwinScheme.Primitive.Run

/-!
# Arithmetic on integers is exact

No operation on integers wraps. Each is computed on the unbounded integers, and
its result is that integer if it is one of the language's, and an overflow if it
is not. For a single operation that is `Exactly`; a sum of many arguments is one
operation after another, so it fails where the first of them does, even if the
whole sum would be an integer of the language again.

Division is the exception. The quotient of two integers that leaves no remainder
is the integer, but the one such quotient that is out of range, that of the least
integer by minus one, is not reported as an overflow. It comes back as a float.
-/

namespace TwinScheme

namespace Number

/-- The values that integers of the language have. -/
def InRange (n : Int) : Prop :=
  -0x8000000000000000 ≤ n ∧ n < 0x8000000000000000

instance (n : Int) : Decidable (InRange n) :=
  inferInstanceAs (Decidable (_ ∧ _))

theorem inRange_toInt (k : Int64) : InRange k.toInt :=
  ⟨k.le_toInt, k.toInt_lt⟩

theorem word?_of_inRange {n : Int} (hn : InRange n) : ∃ k, k.toInt = n ∧ word? n = some k := by
  cases hk : word? n with
  | none =>
      obtain ⟨hle, hlt⟩ := hn
      rcases word?_eq_none_iff.1 hk with h | h <;> omega
  | some k => exact ⟨k, word?_eq_some_iff.1 hk, rfl⟩

theorem word?_of_not_inRange {n : Int} (hn : ¬InRange n) : word? n = none := by
  rw [word?_eq_none_iff]
  unfold InRange at hn
  omega

end Number

namespace Primitive

open Number (InRange)

variable {p : Primitive} {n start : Int} {a : Value} {rest : List Value}
  {r : Except Error Outcome}

/-! ## One operation -/

/-- A result is a given integer, if that is an integer of the language, and the
overflow of a procedure if it is not. -/
structure Exactly (p : Primitive) (n : Int) (r : Except Error Outcome) : Prop where
  fits : InRange n → ∃ k : Int64, k.toInt = n ∧ r = .ok (.value (.int k))
  overflows : ¬InRange n → r = .error (.eval (.overflow p) none)

theorem exact_exactly (p : Primitive) (n : Int) :
    Exactly p n ((Arithmetic.exact p n).map .value) where
  fits hn := by
    obtain ⟨k, hk, hword⟩ := Number.word?_of_inRange hn
    rw [Arithmetic.exact, hword]
    exact ⟨k, hk, rfl⟩
  overflows hn := by
    rw [Arithmetic.exact, Number.word?_of_not_inRange hn]
    rfl

theorem magnitude_exactly (x : Int64) :
    Exactly .abs |x.toInt| (Primitive.run .abs [.int x]) := by
  rw [← Int.natCast_natAbs]
  exact exact_exactly .abs x.toInt.natAbs

/-! ## Sums -/

/-- The sum of the integers among some values. -/
def total (args : List Value) : Int :=
  (args.map fun
    | .int n => n.toInt
    | _ => 0).sum

/-- What goes wrong at a position when values are added to an integer from the
left: the sum up to and including it is out of range, or no number is there. -/
def fault? (start : Int) (args : List Value) (i : Nat) : Option Error :=
  match args[i]? with
  | none => none
  | some (.int _) =>
    if InRange (start + total (args.take (i + 1))) then none
    else some (.eval (.overflow .add) none)
  | some _ => some (.type (.needsNumbers .add) none)

/-- A result is that of adding values without floats to an integer from the left:
the fault at the first position that has one, and otherwise the exact sum. -/
structure Adds (start : Int) (args : List Value) (r : Except Error Outcome) : Prop where
  fails : ∀ i e, fault? start args i = some e → (∀ j < i, fault? start args j = none) →
    r = .error e
  succeeds : (∀ i, fault? start args i = none) →
    ∃ k : Int64, k.toInt = start + total args ∧ r = .ok (.value (.int k))

theorem total_cons (x : Int64) (rest : List Value) :
    total (.int x :: rest) = x.toInt + total rest := by
  rw [total, List.map_cons, List.sum_cons, total]

theorem fault?_zero (start : Int) (x : Int64) (rest : List Value) :
    fault? start (.int x :: rest) 0 =
      if InRange (start + x.toInt) then none else some (.eval (.overflow .add) none) := by
  have htotal : total [.int x] = x.toInt := by rw [total_cons]; exact Int.add_zero _
  rw [← htotal]
  rfl

/-- Positions after an integer are those of the rest, counted from the sum so far. -/
theorem fault?_succ (start : Int) (x : Int64) (rest : List Value) (i : Nat) :
    fault? start (.int x :: rest) (i + 1) = fault? (start + x.toInt) rest i := by
  rw [fault?, fault?, List.getElem?_cons_succ, List.take_succ_cons, total_cons, Int.add_assoc]

theorem Adds.nil (x : Int64) : Adds x.toInt [] (.ok (.value (.int x))) where
  fails _ _ he := nomatch he
  succeeds _ := ⟨x, (Int.add_zero _).symm, rfl⟩

/-- A fault at the first position ends the sum. -/
theorem Adds.stop {e : Error} (he : fault? start (a :: rest) 0 = some e) :
    Adds start (a :: rest) (.error e) where
  fails i e' he' hbefore := by
    cases i with
    | zero => rw [Option.some.inj (he.symm.trans he')]
    | succ i => exact nomatch he.symm.trans (hbefore 0 (Nat.succ_pos i))
  succeeds hall := nomatch he.symm.trans (hall 0)

/-- An integer with which the sum stays in range is passed over. -/
theorem Adds.cons {x : Int64} (hx : InRange (start + x.toInt))
    (h : Adds (start + x.toInt) rest r) : Adds start (.int x :: rest) r where
  fails i e he hbefore := by
    cases i with
    | zero =>
        rw [fault?_zero, if_pos hx] at he
        cases he
    | succ i =>
        rw [fault?_succ] at he
        refine h.fails i e he fun j hj => ?_
        rw [← fault?_succ]
        exact hbefore (j + 1) (Nat.succ_lt_succ hj)
  succeeds hall := by
    rw [total_cons, ← Int.add_assoc]
    refine h.succeeds fun i => ?_
    rw [← fault?_succ]
    exact hall (i + 1)

/-- The fold of a sum, from any integer reached so far. -/
theorem foldlM_adds (x : Int64) {args : List Value}
    (hargs : ∀ a ∈ args, Arithmetic.isFloat a = false) :
    Adds x.toInt args
      ((args.foldlM (Arithmetic.combine .add (· + ·) (· + ·)) (.int x)).map .value) := by
  induction args generalizing x with
  | nil => exact .nil x
  | cons a rest ih =>
      obtain ⟨ha, hrest⟩ := List.forall_mem_cons.1 hargs
      rw [List.foldlM_cons]
      cases a with
      | float y => cases ha
      | int y =>
          have hcombine : Arithmetic.combine .add (· + ·) (· + ·) (.int x) (.int y) =
              Arithmetic.exact .add (x.toInt + y.toInt) := rfl
          rw [hcombine, Arithmetic.exact]
          by_cases hsum : InRange (x.toInt + y.toInt)
          · obtain ⟨k, hk, hword⟩ := Number.word?_of_inRange hsum
            rw [hword]
            exact .cons hsum (hk ▸ ih k hrest)
          · rw [Number.word?_of_not_inRange hsum]
            exact .stop (by rw [fault?_zero, if_neg hsum])
      | _ => exact .stop rfl

theorem sum_adds {args : List Value} (hne : args ≠ [])
    (hargs : ∀ a ∈ args, Arithmetic.isFloat a = false) :
    Adds 0 args (Primitive.run .add args) := by
  obtain ⟨a, rest, rfl⟩ := List.exists_cons_of_ne_nil hne
  obtain ⟨ha, hrest⟩ := List.forall_mem_cons.1 hargs
  cases a with
  | float y => cases ha
  | int x =>
      have hstart : InRange (0 + x.toInt) := by
        rw [Int.zero_add]
        exact Number.inRange_toInt x
      refine .cons hstart ?_
      rw [Int.zero_add]
      exact foldlM_adds x hrest
  | _ => exact .stop rfl

/-- Arithmetic on integers never wraps: a sum is exact or fails at the first
position that is no number or takes it out of range, and a difference, product or
absolute value is exact or an overflow. -/
theorem arithmetic_exact_or_overflow :
    (∀ args : List Value, args ≠ [] → (∀ a ∈ args, Arithmetic.isFloat a = false) →
      Adds 0 args (Primitive.run .add args)) ∧
    ∀ x y : Int64,
      Exactly .sub (x.toInt - y.toInt) (Primitive.run .sub [.int x, .int y]) ∧
      Exactly .mul (x.toInt * y.toInt) (Primitive.run .mul [.int x, .int y]) ∧
      Exactly .abs |x.toInt| (Primitive.run .abs [.int x]) :=
  ⟨fun _ => sum_adds, fun x y => ⟨exact_exactly .sub (x.toInt - y.toInt),
    exact_exactly .mul (x.toInt * y.toInt), magnitude_exactly x⟩⟩

/-- The whole sum of these arguments is in range, but not the sum of the first two. -/
theorem arithmetic_exact_or_overflow_between :
    let args : List Value := [.int Int64.maxValue, .int 1, .int (-1), .symbol "a"]
    args ≠ [] ∧ (∀ a ∈ args, Arithmetic.isFloat a = false) ∧
      InRange (total args) ∧ Primitive.run .add args = .error (.eval (.overflow .add) none) := by
  intro args
  have hne : args ≠ [] := List.cons_ne_nil _ _
  have hargs : ∀ a ∈ args, Arithmetic.isFloat a = false := by
    simp only [args, List.forall_mem_cons, Arithmetic.isFloat, true_and]
    nofun
  have hadds : Adds 0 args (Primitive.run .add args) :=
    arithmetic_exact_or_overflow.1 args hne hargs
  refine ⟨hne, hargs, by decide, hadds.fails 1 _ rfl fun j hj => ?_⟩
  obtain rfl : j = 0 := Nat.lt_one_iff.1 hj
  rfl

/-! ## Quotients -/

theorem run_div_zero (x : Int64) :
    Primitive.run .div [.int x, .int 0] = .error (.eval .divisionByZero none) := rfl

/-- Division by anything but zero: the quotient if there is one, and a float if not. -/
theorem run_div_of_ne_zero (x : Int64) {y : Int64} (hy : y ≠ 0) :
    Primitive.run .div [.int x, .int y] =
      .ok (.value (match Arithmetic.quotient? x y with
        | some q => .int q
        | none => .float (Number.toFloat x / Number.toFloat y))) := by
  have hrun : Primitive.run .div [.int x, .int y] =
      (Arithmetic.divide (.int x) (.int y)).map .value := rfl
  rw [hrun, Arithmetic.divide]
  dsimp only [Arithmetic.operands]
  rw [if_neg hy]
  cases Arithmetic.quotient? x y <;> rfl

theorem toInt_ne_zero {y : Int64} (hy : y ≠ 0) : y.toInt ≠ 0 :=
  fun h => hy (Int64.toInt_inj.1 h)

/-- A quotient without a remainder, as far as the integers of the language go. -/
theorem quotient?_of_eq_mul {x y : Int64} (hy : y ≠ 0) {q : Int} (hq : x.toInt = y.toInt * q) :
    Arithmetic.quotient? x y = Number.word? q := by
  rw [Arithmetic.quotient?, hq, if_pos (Int.mul_emod_right _ _),
    Int.mul_ediv_cancel_left q (toInt_ne_zero hy)]

theorem quotient?_of_not_dvd {x y : Int64} (h : ¬y.toInt ∣ x.toInt) :
    Arithmetic.quotient? x y = none := by
  rw [Arithmetic.quotient?, if_neg fun hmod => h (Int.dvd_of_emod_eq_zero hmod)]

/-- Only one quotient of integers of the language is out of range. -/
theorem eq_minValue_of_not_inRange {x y : Int64} {q : Int} (hq : x.toInt = y.toInt * q)
    (hrange : ¬InRange q) (hy : y ≠ 0) : x = Int64.minValue ∧ y = -1 := by
  have hx : InRange x.toInt := Number.inRange_toInt x
  have hne : y.toInt ≠ 0 := toInt_ne_zero hy
  unfold InRange at hx hrange
  have hsize : q.natAbs ≤ x.toInt.natAbs := by
    rw [hq, Int.natAbs_mul]
    exact Nat.le_mul_of_pos_left _ (Int.natAbs_pos.2 hne)
  -- so the quotient is as large as the dividend, and the dividend as large as can be
  have hquotient : q = 0x8000000000000000 := by omega
  have hmin : x.toInt = -0x8000000000000000 := by omega
  have hdivisor : y.toInt = -1 := by
    rw [hmin, hquotient] at hq
    omega
  exact ⟨Int64.toInt_inj.1 (hmin.trans Int64.toInt_minValue.symm),
    Int64.toInt_inj.1 (hdivisor.trans rfl)⟩

/-- Division of integers: an error by zero, exact where the divisor divides and the
quotient is in range, and a float otherwise, which is also what the one quotient out
of range comes back as. -/
theorem quotient_exact_or_float (x y : Int64) :
    (y = 0 → Primitive.run .div [.int x, .int y] = .error (.eval .divisionByZero none)) ∧
    (y ≠ 0 → ∀ q : Int, x.toInt = y.toInt * q →
      (InRange q →
        ∃ k : Int64, k.toInt = q ∧ Primitive.run .div [.int x, .int y] = .ok (.value (.int k))) ∧
      (¬InRange q → (x = Int64.minValue ∧ y = -1) ∧
        Primitive.run .div [.int x, .int y] = .ok (.value (.float 9223372036854775808.0)))) ∧
    (y ≠ 0 → ¬y.toInt ∣ x.toInt →
      Primitive.run .div [.int x, .int y] =
        .ok (.value (.float (Number.toFloat x / Number.toFloat y)))) := by
  refine ⟨?_, fun hy q hq => ⟨fun hrange => ?_, fun hrange => ?_⟩, fun hy hdvd => ?_⟩
  · rintro rfl
    exact run_div_zero x
  · obtain ⟨k, hk, hword⟩ := Number.word?_of_inRange hrange
    refine ⟨k, hk, ?_⟩
    rw [run_div_of_ne_zero x hy, quotient?_of_eq_mul hy hq, hword]
  · have hends : x = Int64.minValue ∧ y = -1 := eq_minValue_of_not_inRange hq hrange hy
    refine ⟨hends, ?_⟩
    rw [run_div_of_ne_zero x hy, quotient?_of_eq_mul hy hq, Number.word?_of_not_inRange hrange,
      hends.1, hends.2]
    have hfloat : Number.toFloat Int64.minValue / Number.toFloat (-1) = 9223372036854775808.0 := by
      decide +kernel
    rw [hfloat]
  · rw [run_div_of_ne_zero x hy, quotient?_of_not_dvd hdvd]

/-- An integer and a float for a remainder, and the least integer by minus one. -/
theorem quotient_exact_or_float_of_pairs :
    (∃ k : Int64, k.toInt = -3 ∧ Primitive.run .div [.int 6, .int (-2)] = .ok (.value (.int k))) ∧
    (∃ f, Primitive.run .div [.int 7, .int 2] = .ok (.value (.float f))) ∧
    Primitive.run .div [.int Int64.minValue, .int (-1)] =
      .ok (.value (.float 9223372036854775808.0)) := by
  obtain ⟨-, hexact, -⟩ := quotient_exact_or_float 6 (-2)
  obtain ⟨-, -, hremainder⟩ := quotient_exact_or_float 7 2
  obtain ⟨-, hends, -⟩ := quotient_exact_or_float Int64.minValue (-1)
  refine ⟨(hexact (by decide) (-3) (by decide)).1 (by decide),
    ⟨_, hremainder (by decide) (by decide)⟩, ?_⟩
  exact ((hends (by decide) 0x8000000000000000 (by decide)).2 (by decide)).2

/-- A quotient without a remainder that is out of range is no error. -/
theorem not_quotient_overflows :
    ¬∀ x y : Int64, y ≠ 0 → ∀ q : Int, x.toInt = y.toInt * q → ¬InRange q →
      ∃ e, Primitive.run .div [.int x, .int y] = .error e := by
  intro h
  obtain ⟨e, he⟩ :=
    h Int64.minValue (-1) (by decide) 0x8000000000000000 (by decide) (by decide)
  rw [run_div_of_ne_zero _ (by decide)] at he
  cases he

end Primitive

end TwinScheme
