import Mathlib
import TwinScheme.Proofs.Number.Rounding

/-!
# What integers look like among the floats

Every integer of the language has an image among the floats, the one nearest to
it, and integers beyond fifty-three bits share theirs with their neighbours. This
module finds the image in exact arithmetic, from the model of the binary64 format
that floats are defined by, and shows that floats made from integers compare as
the images do.

A float is made from an integer by one of two paths, and each ends in the same
step: a mantissa of too many bits is shifted to the right, and two bits remember
what was shifted out. `Shifted` says what they remember, and that it is enough to
round to the nearest.
-/

namespace TwinScheme.Number

open Float.Model (Format UnpackedFloat totalExponent)
open Float.Model.UnpackedFloat (ExtendedMantissa Sign roundWithAccuracy shiftToTargetExponent
  shiftToExponent)

/-! ## Shifting to the right -/

/-- What is left of a mantissa after shifting it by some places, with the bit after
it and whether any bit is set after that one. -/
structure Shifted (m k : Nat) (em : ExtendedMantissa) : Prop where
  mantissa : em.mantissa = m / 2 ^ k
  roundBit : em.roundBit = true ↔ 2 ^ k ≤ 2 * (m % 2 ^ k)
  stickyBit : em.stickyBit = true ↔ 2 * (m % 2 ^ k) ≠ 0 ∧ 2 * (m % 2 ^ k) ≠ 2 ^ k

namespace Shifted

variable {m k : Nat} {em : ExtendedMantissa}

theorem zero (m : Nat) : Shifted m 0 ⟨m, false, false⟩ where
  mantissa := (Nat.div_one m).symm
  roundBit := by simp [Nat.mod_one]
  stickyBit := by simp [Nat.mod_one]

theorem succ (h : Shifted m k em) : Shifted m (k + 1) em.shiftRightOne := by
  obtain ⟨hmantissa, hround, hsticky⟩ := h
  have hr : m % 2 ^ k < 2 ^ k := Nat.mod_lt _ (Nat.two_pow_pos k)
  constructor
  · show em.mantissa / 2 = _
    rw [hmantissa, Nat.div_div_eq_div_mul, Nat.pow_succ]
  · show (em.mantissa % 2 != 0) = true ↔ _
    rw [hmantissa, Nat.mod_pow_succ, Nat.pow_succ, bne_iff_ne]
    rcases Nat.mod_two_eq_zero_or_one (m / 2 ^ k) with hbit | hbit <;> rw [hbit] <;> omega
  · show (em.roundBit || em.stickyBit) = true ↔ _
    rw [Bool.or_eq_true, hround, hsticky, Nat.mod_pow_succ, Nat.pow_succ]
    rcases Nat.mod_two_eq_zero_or_one (m / 2 ^ k) with hbit | hbit <;> rw [hbit] <;> omega

theorem shift (m k : Nat) :
    Shifted m k ((ExtendedMantissa.ofMantissaAndAccuracy m .exact) >>> k) := by
  show Shifted m k (k.repeat ExtendedMantissa.shiftRightOne ⟨m, false, false⟩)
  induction k with
  | zero => exact zero m
  | succ k ih => exact ih.succ

/-- The two bits are enough to round to the nearest, ties to even. -/
theorem roundedMantissa (h : Shifted m k em) : em.roundedMantissa = halfEven m k := by
  obtain ⟨q, round, sticky⟩ := em
  obtain ⟨rfl, hround, hsticky⟩ := h
  dsimp only at hround hsticky
  have hunit : 0 < 2 ^ k := Nat.two_pow_pos k
  rw [halfEven_eq]
  generalize m % 2 ^ k = r at hround hsticky
  generalize 2 ^ k = unit at hround hsticky hunit
  cases round <;> cases sticky <;> simp only [Bool.false_eq_true, false_iff, true_iff] at hround hsticky
  · rw [if_pos (by omega)]
    rfl
  · rw [if_pos (by omega)]
    rfl
  · rw [if_neg (by omega), if_neg (by omega)]
    rfl
  · rw [if_neg (by omega), if_pos (by omega)]
    rfl

end Shifted

/-! ## Floats of a whole magnitude -/

/-- An unpacked float of fifty-three significant bits, with a sign and a magnitude
that is a whole number. Its exponent is counted from that of one. -/
inductive Denotes (s : Sign) (v : Nat) : UnpackedFloat → Prop
  | finite {m j : Nat} {hpos : 0 < m} : 2 ^ 52 ≤ m → m < 2 ^ 53 → j ≤ 1023 →
    m * 2 ^ j = v * 2 ^ 52 → Denotes s v (.finite s m ((j : Int) - 52) hpos)

/-- The exponent that a mantissa is shifted to, so that it has fifty-three bits, if that
is not below the least one of the format. -/
theorem targetExponent_totalExponent (m : Nat) (e : Int) :
    Format.binary64.targetExponent (totalExponent m e) = max (e + m.log2 - 52) (-1074) := by
  have hbits : Format.binary64.mantissaBits = 53 := rfl
  have hleast : Format.binary64.minExponent = -1074 := rfl
  rw [Format.targetExponent, totalExponent, hbits, hleast]
  omega

theorem shiftToTargetExponent_eq {m : Nat} {e : Int} (hm : 52 ≤ m.log2)
    (he : -1074 ≤ e + excess m) :
    Shifted m (excess m) (shiftToTargetExponent Format.binary64 m e .exact).1 ∧
      (shiftToTargetExponent Format.binary64 m e .exact).2 = e + excess m := by
  have htarget : Format.binary64.targetExponent (totalExponent m e) = e + excess m := by
    have hlog : m.log2 = 52 + excess m := log2_eq_add_excess hm
    rw [targetExponent_totalExponent]
    omega
  have hcount : (e + (excess m : Int) - e).toNat = excess m := by omega
  rw [shiftToTargetExponent, htarget, shiftToExponent, hcount]
  exact ⟨.shift m (excess m), rfl⟩

/-- Rounding may carry into one bit more, which is zero and is given up. -/
theorem carry {q : Nat} (hlow : 2 ^ 52 ≤ q) (hhigh : q ≤ 2 ^ 53) :
    52 ≤ q.log2 ∧ excess q ≤ 1 ∧ 2 ^ 52 ≤ q / 2 ^ excess q ∧ q / 2 ^ excess q < 2 ^ 53 ∧
      q / 2 ^ excess q * 2 ^ excess q = q := by
  have hlog : 52 ≤ q.log2 := (Nat.le_log2 (by omega)).2 hlow
  rcases Nat.lt_or_eq_of_le hhigh with hlt | rfl
  · have hexcess : excess q = 0 := by
      have := (Nat.log2_lt (by omega : q ≠ 0)).2 hlt
      unfold excess
      omega
    rw [hexcess, Nat.pow_zero, Nat.div_one, Nat.mul_one]
    exact ⟨hlog, Nat.zero_le 1, hlow, hlt, rfl⟩
  · decide +kernel

/-- Rounding a mantissa of at least fifty-three bits. -/
theorem roundWithAccuracy_denotes (s : Sign) {m j v : Nat} {e : Int} (hm : 52 ≤ m.log2)
    (hexponent : e + excess m = (j : Int) - 52) (hj : j < 1023)
    (hv : halfEven m (excess m) * 2 ^ j = v * 2 ^ 52) :
    Denotes s v (roundWithAccuracy Format.binary64 s m e .exact) := by
  obtain ⟨hshifted, hfirst⟩ := shiftToTargetExponent_eq hm (by omega : -1074 ≤ e + excess m)
  obtain ⟨hlow, hhigh⟩ := halfEven_excess_mem hm
  rw [roundWithAccuracy]
  generalize shiftToTargetExponent Format.binary64 m e .exact = first at hshifted hfirst
  obtain ⟨em, e₁⟩ := first
  dsimp only at hshifted hfirst ⊢
  subst hfirst
  rw [hshifted.roundedMantissa, hexponent]
  generalize halfEven m (excess m) = q at hlow hhigh hv
  -- the second shift gives up the carry, if there is one
  obtain ⟨hlog, hexcess, hlow', hhigh', hcarry⟩ := carry hlow hhigh
  obtain ⟨hsecond, hexponent'⟩ :=
    shiftToTargetExponent_eq hlog (by omega : -1074 ≤ (j : Int) - 52 + excess q)
  generalize shiftToTargetExponent Format.binary64 q ((j : Int) - 52) .exact = second
    at hsecond hexponent'
  obtain ⟨em', e'⟩ := second
  dsimp only at hsecond hexponent' ⊢
  have hmantissa : em'.mantissa = q / 2 ^ excess q := hsecond.mantissa
  have he' : e' = ((j + excess q : Nat) : Int) - 52 := by omega
  have hvalue : q / 2 ^ excess q * 2 ^ (j + excess q) = v * 2 ^ 52 := by
    rw [Nat.add_comm, Nat.pow_add, ← Nat.mul_assoc, hcarry, hv]
  subst he'
  simp only [hmantissa]
  rw [dif_neg (by omega)]
  exact .finite hlow' hhigh' (by omega) hvalue

/-! ## Packing and unpacking -/

/-- A mantissa of fifty-three bits is packed without its first bit. -/
theorem toNat_implicit {m : Nat} (hlow : 2 ^ 52 ≤ m) (hhigh : m < 2 ^ 53) :
    (1#1 ++ BitVec.ofNat 52 m).toNat = m := by
  rw [BitVec.toNat_append, ← Nat.shiftLeft_add_eq_or_of_lt (BitVec.isLt _), BitVec.toNat_ofNat,
    Nat.shiftLeft_eq, BitVec.toNat_ofNat]
  omega

/-- The bits of a float keep the sign, mantissa and exponent of a whole magnitude. -/
theorem Denotes.unpack_pack {s : Sign} {v : Nat} {u : UnpackedFloat} (h : Denotes s v u) :
    (Float.Model.pack u).unpack = u := by
  obtain ⟨hlow, hhigh, hj, -⟩ := h
  next m j hpos =>
  have hlog : m.log2 + 1 = 53 := by
    rw [(Nat.log2_eq_iff (Nat.pos_iff_ne_zero.1 hpos)).2 ⟨hlow, hhigh⟩]
  have hpack : UnpackedFloat.pack Format.binary64 (.finite s m ((j : Int) - 52) hpos) =
      UnpackedFloat.packComponents Format.binary64 s (BitVec.ofNat 11 (j + 1023))
        (BitVec.ofNat 52 m) := by
    have hbiased : ((j : Int) - 52 + (1023 : Nat) + (52 : Nat)).toNat = j + 1023 := by omega
    have hbias : Format.binary64.exponentBias = 1023 := rfl
    have hbits : Format.binary64.mantissaBits = 53 := rfl
    have hfits : ¬2 ^ 11 ≤ j + 1023 + 1 := by omega
    rw [UnpackedFloat.pack]
    dsimp only
    rw [hbias, hbits, hbiased, if_neg hfits, if_pos hlog]
  have hexponent : (BitVec.ofNat 11 (j + 1023)).toNat = j + 1023 := by
    rw [BitVec.toNat_ofNat, Nat.mod_eq_of_lt (by omega)]
  have hfinite : BitVec.ofNat 11 (j + 1023) ≠ -1#11 := by
    intro heq
    have hall : j + 1023 = 2047 := hexponent.symm.trans (congrArg BitVec.toNat heq)
    omega
  have hnormal : BitVec.ofNat 11 (j + 1023) ≠ 0#11 := by
    intro heq
    have hnone : j + 1023 = 0 := hexponent.symm.trans (congrArg BitVec.toNat heq)
    omega
  show UnpackedFloat.unpack Format.binary64 (UnpackedFloat.pack Format.binary64 _) = _
  rw [hpack, UnpackedFloat.unpack]
  simp only [UnpackedFloat.unpackMantissa_packComponents,
    UnpackedFloat.unpackExponent_packComponents, UnpackedFloat.unpackSign_packComponents,
    Sign.ofBitVec_toBitVec]
  rw [if_neg hfinite, if_neg hnormal]
  simp only [toNat_implicit hlow hhigh, hexponent]
  have hbias : ((j + 1023 : Nat) : Int) - (Format.binary64.exponentBias + (52 : Nat)) =
      (j : Int) - 52 := by
    have hbias : Format.binary64.exponentBias = 1023 := rfl
    omega
  rw [hbias]

/-! ## Comparing -/

section

variable {m m' j j' v v' : Nat}

theorem lt_of_exponent_lt (hhigh : m < 2 ^ 53) (hlow' : 2 ^ 52 ≤ m')
    (hv : m * 2 ^ j = v * 2 ^ 52) (hv' : m' * 2 ^ j' = v' * 2 ^ 52) (hlt : j < j') : v < v' := by
  refine Nat.lt_of_mul_lt_mul_right (a := 2 ^ 52) ?_
  calc v * 2 ^ 52 = m * 2 ^ j := hv.symm
    _ < 2 ^ 53 * 2 ^ j := Nat.mul_lt_mul_of_pos_right hhigh (Nat.two_pow_pos j)
    _ = 2 ^ 52 * 2 ^ (j + 1) := by ring
    _ ≤ 2 ^ 52 * 2 ^ j' := Nat.mul_le_mul_left _ (Nat.pow_le_pow_right (by decide) hlt)
    _ ≤ m' * 2 ^ j' := Nat.mul_le_mul_right _ hlow'
    _ = v' * 2 ^ 52 := hv'

theorem lt_of_mantissa_lt (hv : m * 2 ^ j = v * 2 ^ 52) (hv' : m' * 2 ^ j = v' * 2 ^ 52)
    (hlt : m < m') : v < v' := by
  refine Nat.lt_of_mul_lt_mul_right (a := 2 ^ 52) ?_
  rw [← hv, ← hv']
  exact Nat.mul_lt_mul_of_pos_right hlt (Nat.two_pow_pos j)

/-- Exponents and then mantissas compare as the magnitudes do. -/
theorem compare_scaled (hlow : 2 ^ 52 ≤ m) (hhigh : m < 2 ^ 53) (hlow' : 2 ^ 52 ≤ m')
    (hhigh' : m' < 2 ^ 53) (hv : m * 2 ^ j = v * 2 ^ 52) (hv' : m' * 2 ^ j' = v' * 2 ^ 52) :
    (compare ((j : Int) - 52) ((j' : Int) - 52)).then (compare m m') = compare v v' := by
  rcases Nat.lt_trichotomy j j' with hj | rfl | hj
  · rw [Int.compare_eq_lt.2 (by omega : (j : Int) - 52 < (j' : Int) - 52),
      Nat.compare_eq_lt.2 (lt_of_exponent_lt hhigh hlow' hv hv' hj)]
    rfl
  · rw [Int.compare_eq_eq.2 rfl, Ordering.eq_then]
    rcases Nat.lt_trichotomy m m' with hm | rfl | hm
    · rw [Nat.compare_eq_lt.2 hm, Nat.compare_eq_lt.2 (lt_of_mantissa_lt hv hv' hm)]
    · have heq : v = v' := Nat.eq_of_mul_eq_mul_right (Nat.two_pow_pos 52) (hv.symm.trans hv')
      rw [Nat.compare_eq_eq.2 rfl, Nat.compare_eq_eq.2 heq]
    · rw [Nat.compare_eq_gt.2 hm, Nat.compare_eq_gt.2 (lt_of_mantissa_lt hv' hv hm)]
  · rw [Int.compare_eq_gt.2 (by omega : (j' : Int) - 52 < (j : Int) - 52),
      Nat.compare_eq_gt.2 (lt_of_exponent_lt hhigh' hlow hv' hv hj)]
    rfl

end

/-- An unpacked float that is a given whole number, as floats made from integers are:
zero has no sign. -/
inductive Is : UnpackedFloat → Int → Prop
  | zero : Is (.zero .positive) 0
  | positive {v u} : Denotes .positive v u → Is u v
  | negative {v u} : Denotes .negative v u → Is u (-v)

theorem Denotes.pos {s : Sign} {v : Nat} {u : UnpackedFloat} (h : Denotes s v u) : 0 < v := by
  obtain ⟨hlow, -, -, hv⟩ := h
  next m j hpos =>
  have : 0 < m * 2 ^ j := Nat.mul_pos hpos (Nat.two_pow_pos j)
  omega

theorem compare_natCast (v v' : Nat) : compare (v : Int) (v' : Int) = compare v v' := by
  rcases Nat.lt_trichotomy v v' with h | rfl | h
  · rw [Nat.compare_eq_lt.2 h, Int.compare_eq_lt.2 (Int.ofNat_lt.2 h)]
  · rw [Nat.compare_eq_eq.2 rfl, Int.compare_eq_eq.2 rfl]
  · rw [Nat.compare_eq_gt.2 h, Int.compare_eq_gt.2 (Int.ofNat_lt.2 h)]

theorem compare_neg (x y : Int) : compare (-x) (-y) = (compare x y).swap := by
  rw [Int.compare_swap]
  rcases Int.lt_trichotomy x y with h | rfl | h
  · rw [Int.compare_eq_gt.2 h, Int.compare_eq_gt.2 (Int.neg_lt_neg h)]
  · rw [Int.compare_eq_eq.2 rfl, Int.compare_eq_eq.2 rfl]
  · rw [Int.compare_eq_lt.2 h, Int.compare_eq_lt.2 (Int.neg_lt_neg h)]

/-- Unpacked floats that are whole numbers compare as these. -/
theorem Is.compare {u u' : UnpackedFloat} {x y : Int} (h : Is u x) (h' : Is u' y) :
    u.compare u' = some (Ord.compare x y) := by
  have hpos : ∀ {s : Sign} {v : Nat} {u : UnpackedFloat}, Denotes s v u → 0 < (v : Int) :=
    fun hv => Int.natCast_pos.2 hv.pos
  have hneg : ∀ {s : Sign} {v : Nat} {u : UnpackedFloat}, Denotes s v u → -(v : Int) < 0 :=
    fun hv => Int.neg_neg_of_pos (hpos hv)
  cases h with
  | zero =>
      cases h' with
      | zero => rfl
      | positive h' => rw [Int.compare_eq_lt.2 (hpos h')]; cases h'; rfl
      | negative h' => rw [Int.compare_eq_gt.2 (hneg h')]; cases h'; rfl
  | positive h =>
      cases h' with
      | zero => rw [Int.compare_eq_gt.2 (hpos h)]; cases h; rfl
      | positive h' =>
          rw [compare_natCast]
          obtain ⟨hlow, hhigh, -, hv⟩ := h
          obtain ⟨hlow', hhigh', -, hv'⟩ := h'
          exact congrArg some (compare_scaled hlow hhigh hlow' hhigh' hv hv')
      | negative h' =>
          rw [Int.compare_eq_gt.2 (Int.lt_trans (hneg h') (hpos h))]; cases h; cases h'; rfl
  | negative h =>
      cases h' with
      | zero => rw [Int.compare_eq_lt.2 (hneg h)]; cases h; rfl
      | positive h' =>
          rw [Int.compare_eq_lt.2 (Int.lt_trans (hneg h) (hpos h'))]; cases h; cases h'; rfl
      | negative h' =>
          rw [compare_neg, compare_natCast]
          obtain ⟨hlow, hhigh, -, hv⟩ := h
          obtain ⟨hlow', hhigh', -, hv'⟩ := h'
          exact congrArg (fun o => some (Ordering.swap o))
            (compare_scaled hlow hhigh hlow' hhigh' hv hv')

/-! ## Floats made from integers -/

section

variable {n : Nat}

theorem log2_mul_two_pow (hn : n ≠ 0) (k : Nat) : (n * 2 ^ k).log2 = n.log2 + k := by
  have hne : n * 2 ^ k ≠ 0 := Nat.mul_ne_zero hn (Nat.pos_iff_ne_zero.1 (Nat.two_pow_pos k))
  refine (Nat.log2_eq_iff hne).2 ⟨?_, ?_⟩
  · rw [Nat.pow_add]
    exact Nat.mul_le_mul_right _ (Nat.log2_self_le hn)
  · rw [Nat.add_right_comm, Nat.pow_add]
    exact Nat.mul_lt_mul_of_pos_right Nat.lt_log2_self (Nat.two_pow_pos k)

theorem excess_mul_two_pow (hn : n ≠ 0) (k : Nat) : excess (n * 2 ^ k) = n.log2 + k - 52 := by
  rw [excess, log2_mul_two_pow hn]

/-- A number of up to fifty-three bits is shifted to the left until it has that many. -/
theorem round_denotes (hn : n ≠ 0) (hlog : n.log2 ≤ 52) :
    Denotes .positive n (UnpackedFloat.round Format.binary64 .positive n 0) := by
  have htarget : Format.binary64.targetExponent (totalExponent n 0) = (n.log2 : Int) - 52 := by
    rw [targetExponent_totalExponent]
    omega
  have hcount : (0 - ((n.log2 : Int) - 52)).toNat = 52 - n.log2 := by omega
  have hlog' : (n * 2 ^ (52 - n.log2)).log2 = 52 := by
    rw [log2_mul_two_pow hn]
    omega
  have hexcess : excess (n * 2 ^ (52 - n.log2)) = 0 := by
    rw [excess_mul_two_pow hn]
    omega
  rw [UnpackedFloat.round, htarget, UnpackedFloat.decreaseExponent, hcount, Nat.shiftLeft_eq]
  refine roundWithAccuracy_denotes .positive (j := n.log2) (Nat.le_of_eq hlog'.symm) ?_ (by omega) ?_
  · rw [hexcess]
    omega
  · rw [hexcess, halfEven_zero, Nat.mul_assoc, ← Nat.pow_add, Nat.sub_add_cancel hlog]

/-- One, with a mantissa of fifty-three bits. -/
theorem unpack_one : (Float.ofBits 0x3FF0000000000000).toModel.unpack =
    .finite .positive (2 ^ 52) (-52) (by decide) := by
  rfl

theorem mul_one_denotes {s : Sign} {v : Nat} {u : UnpackedFloat} (h : Denotes s v u)
    (hsmall : v < 2 ^ 53) :
    Denotes s v (u.mul Format.binary64 (.finite .positive (2 ^ 52) (-52) (by decide))) := by
  obtain ⟨hlow, hhigh, -, hv⟩ := h
  next m j hpos =>
  have hne : m ≠ 0 := Nat.pos_iff_ne_zero.1 hpos
  have hsign : s * Sign.positive = s := by cases s <;> rfl
  have hlog : (m * 2 ^ 52).log2 = 104 := by
    rw [log2_mul_two_pow hne, (Nat.log2_eq_iff hne).2 ⟨hlow, hhigh⟩]
  have hexcess : excess (m * 2 ^ 52) = 52 := by rw [excess, hlog]
  have hj : j < 1023 := by
    have hle : 2 ^ 52 * 2 ^ j ≤ 2 ^ 52 * v := by
      rw [Nat.mul_comm _ v, ← hv]
      exact Nat.mul_le_mul_right _ hlow
    have hpow : 2 ^ j < 2 ^ 53 := Nat.lt_of_le_of_lt (Nat.le_of_mul_le_mul_left hle (by decide)) hsmall
    have := (Nat.pow_lt_pow_iff_right (by decide : 1 < 2)).1 hpow
    omega
  show Denotes s v (roundWithAccuracy Format.binary64 (s * Sign.positive) (m * 2 ^ 52)
    ((j : Int) - 52 + -52) .exact)
  rw [hsign]
  refine roundWithAccuracy_denotes s (by omega) ?_ hj ?_
  · rw [hexcess]
    omega
  · rw [hexcess, halfEven_mul m 0 52, halfEven_zero, hv]

/-- The first path: a number of up to fifty-three bits is rounded, which leaves it as it
is, and multiplied by one. -/
theorem ofNat_of_lt (hn : n ≠ 0) (hlt : n < 2 ^ 53) :
    ∃ u, Float.ofNat n = .ofModel (.pack u) ∧ Denotes .positive n u := by
  have hlog : n.log2 ≤ 52 := by
    have := (Nat.log2_lt hn).2 hlt
    omega
  have hrounded := round_denotes hn hlog
  have hinteger : UnpackedFloat.ofUInt64 Format.binary64 n.toUInt64 =
      UnpackedFloat.round Format.binary64 .positive n 0 := by
    have hword : n.toUInt64.toNat = n := Nat.mod_eq_of_lt (by omega : n < 2 ^ 64)
    have hcompare : compare (n : Int) 0 = .gt := Int.compare_eq_gt.2 (by omega)
    rw [UnpackedFloat.ofUInt64, hword, UnpackedFloat.ofNat, UnpackedFloat.ofInt,
      UnpackedFloat.normalize, hcompare]
    rfl
  refine ⟨_, ?_, mul_one_denotes hrounded hlt⟩
  have hpath : Float.ofNat n = n.toUInt64.toFloat * Float.ofBits 0x3FF0000000000000 := by
    rw [Float.ofNat]
    show Float.ofScientific n false 0 = _
    rw [Float.ofScientific, dif_pos ⟨hlt, Nat.zero_le 22⟩]
    rfl
  have hproduct : n.toUInt64.toFloat * Float.ofBits 0x3FF0000000000000 =
      .ofModel (.pack (UnpackedFloat.mul Format.binary64
        (Float.Model.pack (UnpackedFloat.ofUInt64 Format.binary64 n.toUInt64)).unpack
        (Float.ofBits 0x3FF0000000000000).toModel.unpack)) := rfl
  rw [hpath, hproduct, hinteger, hrounded.unpack_pack, unpack_one]

/-- The second path: a longer number is shifted to the left, so that no bit is missing,
and rounded. -/
theorem ofNat_of_le (hle : 2 ^ 53 ≤ n) (hlt : n < 2 ^ 64) :
    ∃ u, Float.ofNat n = .ofModel (.pack u) ∧ Denotes .positive (nearest n) u := by
  have hn : n ≠ 0 := by omega
  have hlong : 53 ≤ n.log2 := (Nat.le_log2 hn).2 hle
  have hshort : n.log2 < 64 := (Nat.log2_lt hn).2 hlt
  have hpath : Float.ofNat n = .ofModel (.pack (UnpackedFloat.ofScientific Format.binary64 n 0)) := by
    rw [Float.ofNat]
    show Float.ofScientific n false 0 = _
    rw [Float.ofScientific, dif_neg fun hall => Nat.not_lt.2 hle hall.1]
    rfl
  have hscientific : UnpackedFloat.ofScientific Format.binary64 n 0 =
      roundWithAccuracy Format.binary64 .positive (n * 2 ^ 53) (-53) .exact := by
    have hshift : n <<< Format.binary64.mantissaBits * 10 ^ (0 : Int).toNat = n * 2 ^ 53 := by
      rw [Nat.shiftLeft_eq]
      exact Nat.mul_one _
    have hguard : ¬(0 : Int) < -((2 ^ Format.binary64.exponentBits : Int) + n.log2) := by
      have hpow : (2 ^ Format.binary64.exponentBits : Int) = 2048 := rfl
      omega
    rw [UnpackedFloat.ofScientific, dif_neg hn, if_neg (by decide), if_neg hguard,
      if_pos (Int.le_refl 0), ← hshift]
    rfl
  have hlog : (n * 2 ^ 53).log2 = n.log2 + 53 := log2_mul_two_pow hn 53
  have hlog' : n.log2 = 52 + excess n := log2_eq_add_excess (by omega)
  have hexcess : excess (n * 2 ^ 53) = excess n + 53 := by
    rw [excess_mul_two_pow hn]
    omega
  refine ⟨_, hpath, ?_⟩
  rw [hscientific]
  refine roundWithAccuracy_denotes .positive (j := n.log2) (by omega) ?_ (by omega) ?_
  · rw [hexcess]
    omega
  · rw [hexcess, halfEven_mul, nearest, hlog', Nat.add_comm, Nat.pow_add, Nat.mul_assoc]

theorem ofNat_denotes (hn : n ≠ 0) (hlt : n < 2 ^ 64) :
    ∃ u, Float.ofNat n = .ofModel (.pack u) ∧ Denotes .positive (nearest n) u := by
  rcases Nat.lt_or_ge n (2 ^ 53) with h | h
  · rw [nearest_of_le (Nat.le_of_lt h)]
    exact ofNat_of_lt hn h
  · exact ofNat_of_le h hlt

end

/-- The image of an integer among the floats, as an integer: the one of fifty-three
significant bits nearest to it. -/
def image (n : Int64) : Int :=
  n.toInt.sign * nearest n.toInt.natAbs

theorem Denotes.neg {v : Nat} {u : UnpackedFloat} (h : Denotes .positive v u) :
    Denotes .negative v u.neg := by
  obtain ⟨hlow, hhigh, hj, hv⟩ := h
  exact .finite hlow hhigh hj hv

/-- A float made from an integer is the image of the integer. -/
theorem toFloat_is_image (n : Int64) : Is (toFloat n).toModel.unpack (image n) := by
  have hle : -0x8000000000000000 ≤ n.toInt := n.le_toInt
  have hlt : n.toInt < 0x8000000000000000 := n.toInt_lt
  rw [toFloat, image]
  generalize n.toInt = i at hle hlt
  cases i with
  | ofNat k =>
      rw [Int.ofNat_eq_natCast] at hle hlt
      rcases Nat.eq_zero_or_pos k with rfl | hk
      · exact .zero
      · obtain ⟨u, hu, hdenotes⟩ := ofNat_denotes (n := k) (by omega) (by omega)
        have hsign : (Int.ofNat k).sign * (nearest k : Int) = nearest k := by
          rw [Int.ofNat_eq_natCast, Int.sign_eq_one_of_pos (Int.natCast_pos.2 hk), Int.one_mul]
        show Is (Float.ofNat k).toModel.unpack _
        rw [hu, hdenotes.unpack_pack, Int.natAbs_ofNat', hsign]
        exact .positive hdenotes
  | negSucc k =>
      obtain ⟨u, hu, hdenotes⟩ := ofNat_denotes (n := k + 1) (by omega) (by omega)
      have hsign : (Int.negSucc k).sign * (nearest (k + 1) : Int) = -(nearest (k + 1) : Int) := by
        rw [Int.sign_negSucc, Int.neg_one_mul]
      show Is (Float.Model.pack (Float.ofNat (k + 1)).toModel.unpack.neg).unpack _
      rw [hu, hdenotes.unpack_pack, hdenotes.neg.unpack_pack, Int.natAbs_negSucc, hsign]
      exact .negative hdenotes.neg

/-- Floats made from integers compare as the images of the integers do. -/
theorem toFloat_lt_iff {a b : Int64} : toFloat a < toFloat b ↔ image a < image b := by
  have hcompare := (toFloat_is_image a).compare (toFloat_is_image b)
  have hlt : toFloat a < toFloat b ↔
      ((toFloat a).toModel.unpack.compare (toFloat b).toModel.unpack == some .lt) = true := by
    show decide ((toFloat a).toModel < (toFloat b).toModel) = true ↔ _
    exact decide_eq_true_iff
  rw [hlt, hcompare, beq_iff_eq, Option.some.injEq, Int.compare_eq_lt]

/-! ## How far images are from their integers -/

variable {a b n : Int64}

theorem image_of_nonneg (h : 0 ≤ n.toInt) : image n = nearest n.toInt.natAbs := by
  rcases Int.lt_or_eq_of_le h with hpos | hzero
  · rw [image, Int.sign_eq_one_of_pos hpos, Int.one_mul]
  · rw [image, ← hzero]
    rfl

theorem image_of_nonpos (h : n.toInt ≤ 0) : image n = -nearest n.toInt.natAbs := by
  rcases Int.lt_or_eq_of_le h with hneg | hzero
  · rw [image, Int.sign_eq_neg_one_of_neg hneg, Int.neg_one_mul]
  · rw [image, hzero]
    rfl

/-- Images respect the order, if not strictly. -/
theorem image_mono (h : a.toInt ≤ b.toInt) : image a ≤ image b := by
  rcases Int.le_total 0 a.toInt with ha | ha
  · rw [image_of_nonneg ha, image_of_nonneg (Int.le_trans ha h)]
    exact Int.ofNat_le.2 (nearest_mono (by omega))
  · rcases Int.le_total 0 b.toInt with hb | hb
    · rw [image_of_nonpos ha, image_of_nonneg hb]
      omega
    · rw [image_of_nonpos ha, image_of_nonpos hb]
      exact Int.neg_le_neg (Int.ofNat_le.2 (nearest_mono (by omega)))

/-- Integers of up to fifty-three bits are their own images. -/
theorem image_of_small (h : n.toInt.natAbs ≤ 2 ^ 53) : image n = n.toInt := by
  rw [image, nearest_of_le h, Int.sign_mul_natAbs]

/-- Every image is within 512 of its integer. -/
theorem image_near (n : Int64) : (image n - n.toInt).natAbs ≤ 512 := by
  have hlow : -0x8000000000000000 ≤ n.toInt := n.le_toInt
  have hhigh : n.toInt < 0x8000000000000000 := n.toInt_lt
  obtain ⟨hdown, hup⟩ := nearest_near (by omega : n.toInt.natAbs ≤ 2 ^ 63)
  rcases Int.le_total 0 n.toInt with h | h
  · rw [image_of_nonneg h]
    omega
  · rw [image_of_nonpos h]
    omega

end TwinScheme.Number
