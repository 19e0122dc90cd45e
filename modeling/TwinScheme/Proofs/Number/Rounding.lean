import Mathlib.Algebra.Order.Ring.Nat
import Mathlib.Tactic.Ring
import TwinScheme.Number.Binary

/-!
# Rounding to fifty-three significant bits

A natural number is brought to the precision of the binary64 format by giving up
the places beyond its first fifty-three bits, to the nearest number that has none
there, and to the one with an even mantissa of two equally near. `nearest` is that
number, in exact arithmetic; nothing here speaks of floats. What is needed of it
later is that it respects the order, that it leaves alone what has no places to
give up, and how far it moves a number.
-/

namespace TwinScheme.Number

/-- The whole number nearest to `n / 2 ^ k`, the even one of two equally near. -/
def halfEven (n k : Nat) : Nat :=
  (Binary.mk n (-(k : Int)) false).nearest

/-- How many places of a number come after its first fifty-three. -/
def excess (n : Nat) : Nat :=
  n.log2 - 52

/-- The number of fifty-three significant bits nearest to `n`, the one with an
even mantissa of two equally near. -/
def nearest (n : Nat) : Nat :=
  halfEven n (excess n) * 2 ^ excess n

/-! ## Halves to even -/

theorem halfEven_eq (n k : Nat) :
    halfEven n k =
      if 2 * (n % 2 ^ k) < 2 ^ k then n / 2 ^ k
      else if 2 ^ k < 2 * (n % 2 ^ k) then n / 2 ^ k + 1
      else n / 2 ^ k + n / 2 ^ k % 2 := by
  have hratio : (Binary.mk n (-(k : Int)) false).ratio = (n, 2 ^ k) := by
    have hleft : (-(k : Int)).toNat = 0 := by omega
    have hright : (- -(k : Int)).toNat = k := by omega
    rw [Binary.ratio, hleft, hright, Nat.shiftLeft_zero, Nat.one_shiftLeft]
  rw [halfEven, Binary.nearest, hratio]
  dsimp only
  generalize n % 2 ^ k = r
  generalize n / 2 ^ k = q
  generalize 2 ^ k = unit
  rcases Nat.lt_trichotomy (2 * r) unit with h | h | h
  · rw [Nat.compare_eq_lt.2 h, if_pos h]
  · have hlt : ¬2 * r < unit := by omega
    have hgt : ¬unit < 2 * r := by omega
    rw [Nat.compare_eq_eq.2 h, if_neg hlt, if_neg hgt]
    dsimp only
    split <;> omega
  · have hlt : ¬2 * r < unit := by omega
    rw [Nat.compare_eq_gt.2 h, if_neg hlt, if_pos h]

theorem halfEven_zero (n : Nat) : halfEven n 0 = n := by
  rw [halfEven_eq, Nat.pow_zero, Nat.mod_one, Nat.div_one]
  rfl

/-- Rounding moves a number by half a unit at most. -/
theorem halfEven_near (n k : Nat) :
    2 * n ≤ 2 * (halfEven n k * 2 ^ k) + 2 ^ k ∧ 2 * (halfEven n k * 2 ^ k) ≤ 2 * n + 2 ^ k := by
  have hn : 2 ^ k * (n / 2 ^ k) + n % 2 ^ k = n := Nat.div_add_mod n (2 ^ k)
  have hr : n % 2 ^ k < 2 ^ k := Nat.mod_lt _ (Nat.two_pow_pos k)
  rw [halfEven_eq]
  generalize n / 2 ^ k = q at hn
  generalize n % 2 ^ k = r at hn hr
  generalize 2 ^ k = unit at hn hr
  subst hn
  have hup : (q + 1) * unit = unit * q + unit := by ring
  have hdown : q * unit = unit * q := Nat.mul_comm q unit
  split
  · omega
  · split
    · omega
    · rcases Nat.mod_two_eq_zero_or_one q with heven | hodd
      · rw [heven, Nat.add_zero]
        omega
      · rw [hodd]
        omega

/-- Rounding gives one of the two whole numbers around the quotient. -/
theorem halfEven_mem (n k : Nat) : n / 2 ^ k ≤ halfEven n k ∧ halfEven n k ≤ n / 2 ^ k + 1 := by
  rw [halfEven_eq]
  generalize n / 2 ^ k = q
  split
  · omega
  · split <;> omega

/-- Rounding to the same unit respects the order. -/
theorem halfEven_mono {n m : Nat} (h : n ≤ m) (k : Nat) : halfEven n k ≤ halfEven m k := by
  have hq : n / 2 ^ k ≤ m / 2 ^ k := Nat.div_le_div_right h
  rcases Nat.lt_or_eq_of_le hq with hlt | heq
  · calc halfEven n k ≤ n / 2 ^ k + 1 := (halfEven_mem n k).2
      _ ≤ m / 2 ^ k := hlt
      _ ≤ halfEven m k := (halfEven_mem m k).1
  · have hr : n % 2 ^ k ≤ m % 2 ^ k := by
      have hn := Nat.div_add_mod n (2 ^ k)
      have hm := Nat.div_add_mod m (2 ^ k)
      rw [heq] at hn
      omega
    rcases Nat.lt_or_ge (2 * (n % 2 ^ k)) (2 ^ k) with hdown | hdown
    · rw [halfEven_eq n, if_pos hdown, heq]
      exact (halfEven_mem m k).1
    · rcases Nat.lt_or_ge (2 ^ k) (2 * (m % 2 ^ k)) with hup | hup
      · rw [halfEven_eq m, if_neg (by omega), if_pos hup, ← heq]
        exact (halfEven_mem n k).2
      · -- both are half way between the same two numbers
        have hhalf : n % 2 ^ k = m % 2 ^ k := by omega
        rw [halfEven_eq, halfEven_eq, heq, hhalf]

/-- A number scaled up rounds alike to a unit scaled up. -/
theorem halfEven_mul (n k j : Nat) : halfEven (n * 2 ^ j) (k + j) = halfEven n k := by
  have hpos : 0 < 2 ^ j := Nat.two_pow_pos j
  rw [halfEven_eq, halfEven_eq, Nat.pow_add, Nat.mul_mod_mul_right, Nat.mul_div_mul_right _ _ hpos,
    ← Nat.mul_assoc]
  simp only [Nat.mul_lt_mul_right hpos]

/-! ## Numbers of more than fifty-three bits -/

variable {n m : Nat}

theorem log2_eq_add_excess (hn : 52 ≤ n.log2) : n.log2 = 52 + excess n := by
  unfold excess
  omega

/-- A number of at least fifty-three bits is rounded to a mantissa of fifty-three
bits, or to the next power of two. -/
theorem halfEven_excess_mem (hn : 52 ≤ n.log2) :
    2 ^ 52 ≤ halfEven n (excess n) ∧ halfEven n (excess n) ≤ 2 ^ 53 := by
  have hne : n ≠ 0 := by
    rintro rfl
    exact absurd hn (by decide)
  have hlog : n.log2 = 52 + excess n := log2_eq_add_excess hn
  have hlow : 2 ^ 52 * 2 ^ excess n ≤ n := by
    rw [← Nat.pow_add, ← hlog]
    exact Nat.log2_self_le hne
  have hhigh : n < 2 ^ 53 * 2 ^ excess n := by
    rw [← Nat.pow_add, show 53 + excess n = n.log2 + 1 by omega]
    exact Nat.lt_log2_self
  have hlow' : 2 ^ 52 ≤ n / 2 ^ excess n := (Nat.le_div_iff_mul_le (Nat.two_pow_pos _)).2 hlow
  have hhigh' : n / 2 ^ excess n < 2 ^ 53 := (Nat.div_lt_iff_lt_mul (Nat.two_pow_pos _)).2 hhigh
  obtain ⟨hdown, hup⟩ := halfEven_mem n (excess n)
  exact ⟨Nat.le_trans hlow' hdown, Nat.le_trans hup hhigh'⟩

theorem nearest_of_log2_le (hn : n.log2 ≤ 52) : nearest n = n := by
  rw [nearest, excess, Nat.sub_eq_zero_of_le hn, halfEven_zero, Nat.pow_zero, Nat.mul_one]

/-- The nearest number has as many bits, or is the next power of two. -/
theorem nearest_mem (hn : n ≠ 0) : 2 ^ n.log2 ≤ nearest n ∧ nearest n ≤ 2 ^ (n.log2 + 1) := by
  rcases Nat.le_total n.log2 52 with h | h
  · rw [nearest_of_log2_le h]
    exact ⟨Nat.log2_self_le hn, Nat.le_of_lt Nat.lt_log2_self⟩
  · obtain ⟨hlow, hhigh⟩ := halfEven_excess_mem h
    have hlog : n.log2 = 52 + excess n := log2_eq_add_excess h
    have hlog' : n.log2 + 1 = 53 + excess n := by omega
    rw [hlog', hlog, Nat.pow_add, Nat.pow_add]
    exact ⟨Nat.mul_le_mul_right _ hlow, Nat.mul_le_mul_right _ hhigh⟩

/-- Rounding respects the order. -/
theorem nearest_mono (h : n ≤ m) : nearest n ≤ nearest m := by
  rcases Nat.eq_zero_or_pos n with rfl | hpos
  · exact Nat.zero_le _
  · have hn : n ≠ 0 := Nat.pos_iff_ne_zero.1 hpos
    have hm : m ≠ 0 := by omega
    have hlog : n.log2 ≤ m.log2 := (Nat.le_log2 hm).2 (Nat.le_trans (Nat.log2_self_le hn) h)
    rcases Nat.lt_or_eq_of_le hlog with hlt | heq
    · calc nearest n ≤ 2 ^ (n.log2 + 1) := (nearest_mem hn).2
        _ ≤ 2 ^ m.log2 := Nat.pow_le_pow_right (by decide) hlt
        _ ≤ nearest m := (nearest_mem hm).1
    · have hexcess : excess n = excess m := by rw [excess, excess, heq]
      rw [nearest, nearest, hexcess]
      exact Nat.mul_le_mul_right _ (halfEven_mono h _)

/-- A number of up to fifty-three bits, or the power of two after them, is its own
nearest. -/
theorem nearest_of_le (hn : n ≤ 2 ^ 53) : nearest n = n := by
  rcases Nat.lt_or_eq_of_le hn with hlt | rfl
  · refine nearest_of_log2_le ?_
    rcases Nat.eq_zero_or_pos n with rfl | hpos
    · decide
    · have := (Nat.log2_lt (Nat.pos_iff_ne_zero.1 hpos)).2 hlt
      omega
  · decide +kernel

/-- Up to the size of an integer of the language, rounding moves a number by 512 at
most. -/
theorem nearest_near (hn : n ≤ 2 ^ 63) : n ≤ nearest n + 512 ∧ nearest n ≤ n + 512 := by
  rcases Nat.lt_or_eq_of_le hn with hlt | rfl
  · obtain ⟨hlow, hhigh⟩ := halfEven_near n (excess n)
    have hexcess : excess n ≤ 10 := by
      rcases Nat.eq_zero_or_pos n with rfl | hpos
      · decide
      · have := (Nat.log2_lt (Nat.pos_iff_ne_zero.1 hpos)).2 hlt
        unfold excess
        omega
    have hunit : 2 ^ excess n ≤ 2 ^ 10 := Nat.pow_le_pow_right (by decide) hexcess
    rw [nearest]
    omega
  · have hself : nearest (2 ^ 63) = 2 ^ 63 := by decide +kernel
    rw [hself]
    omega

end TwinScheme.Number
