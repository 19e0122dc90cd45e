import Mathlib
import TwinScheme.Proofs.Reader.Numerals

/-!
# The grammar of numerals

Which atoms are numbers is described without any scanning: digits with at most one
sign are the numeral of an integer; digits with at most one point, a sign and an
exponent, or one of three words, are the numeral of a float. The grammar carries
the value along, so that a text and the number that it denotes are described
together.

Each function that recognises a part of a numeral is then matched with the part of
the grammar, in both directions. Only two of these have anything in them. Digits
are cut off where they end, and no exponent starts with a digit or a point, so a
decimal can be cut in one way only. And no word starts like a decimal, so it does
not matter that words are tried first.
-/

namespace TwinScheme

namespace Number

open List (Forall₂)

/-! ## Numerals -/

/-- One or more decimal digits, and their value. -/
inductive Digits : List Char → Nat → Prop
  | single {c : Char} : c.isDigit = true → Digits [c] (c.toNat - '0'.toNat)
  | snoc {cs : List Char} {n : Nat} {c : Char} : Digits cs n → c.isDigit = true →
      Digits (cs ++ [c]) (10 * n + (c.toNat - '0'.toNat))

/-- A text of some kind after at most one sign, with its value. -/
inductive Signed {α : Type} [Neg α] (Unsigned : List Char → α → Prop) : List Char → α → Prop
  | unsigned {cs x} : Unsigned cs x → Signed Unsigned cs x
  | plus {cs x} : Unsigned cs x → Signed Unsigned ('+' :: cs) x
  | minus {cs x} : Unsigned cs x → Signed Unsigned ('-' :: cs) (-x)

/-- The digits of an integer. -/
inductive Whole : List Char → Int → Prop
  | mk {cs : List Char} {n : Nat} : Digits cs n → Whole cs n

/-- The numeral of an integer. -/
def IntegerNumeral : List Char → Int → Prop :=
  Signed Whole

/-- Digits, with at most one point before, after or among them. -/
inductive Mantissa : List Char → Decimal → Prop
  | whole {cs n} : Digits cs n → Mantissa cs ⟨n, 0⟩
  | point {cs ds n} : Digits (cs ++ ds) n → Mantissa (cs ++ '.' :: ds) ⟨n, -ds.length⟩

/-- Nothing, or the letter `e` and the numeral of an integer. -/
inductive Exponent : List Char → Int → Prop
  | none : Exponent [] 0
  | some {c cs e} : c = 'e' ∨ c = 'E' → IntegerNumeral cs e → Exponent (c :: cs) e

/-- A word in small letters, written in letters of either case. -/
def Spells (word : String) (cs : List Char) : Prop :=
  Forall₂ (fun c letter => c = letter ∨ c = letter.toUpper) cs word.toList

/-- The numeral of a float, without a sign. -/
inductive Magnitude : List Char → Float → Prop
  | infinity {cs} : Spells "inf" cs ∨ Spells "infinity" cs → Magnitude cs infinity
  | nan {cs} : Spells "nan" cs → Magnitude cs (0.0 / 0.0)
  | decimal {cs ds d e} : Mantissa cs d → Exponent ds e →
      Magnitude (cs ++ ds) (Decimal.toFloat ⟨d.digits, d.exponent + e⟩)

/-- The numeral of a float. -/
def FloatNumeral : List Char → Float → Prop :=
  Signed Magnitude

/-! ## Integers -/

theorem digits_iff {cs : List Char} {n : Nat} :
    Digits cs n ↔ cs ≠ [] ∧ (∀ c ∈ cs, c.isDigit = true) ∧ Nat.ofDigitChars 10 cs 0 = n := by
  constructor
  · intro h
    induction h with
    | @single c hc =>
        refine ⟨List.cons_ne_nil c [], by simpa using hc, ?_⟩
        rw [Nat.ofDigitChars_cons, Nat.mul_zero, Nat.zero_add, Nat.ofDigitChars_nil]
    | @snoc cs n c _ hc ih =>
        obtain ⟨-, hdigits, hvalue⟩ := ih
        refine ⟨by simp, List.forall_mem_append.2 ⟨hdigits, by simpa using hc⟩, ?_⟩
        rw [Nat.ofDigitChars_append, hvalue, Nat.ofDigitChars_cons, Nat.ofDigitChars_nil]
  · rintro ⟨hne, hdigits, rfl⟩
    induction cs using List.reverseRecOn with
    | nil => exact absurd rfl hne
    | append_singleton cs c ih =>
        obtain ⟨hcs, hc⟩ := List.forall_mem_append.1 hdigits
        have hc : c.isDigit = true := hc c List.mem_cons_self
        rw [Nat.ofDigitChars_append, Nat.ofDigitChars_cons, Nat.ofDigitChars_nil]
        by_cases hnil : cs = []
        · subst hnil
          simpa using Digits.single hc
        · exact .snoc (ih hnil hcs) hc

theorem Digits.exists_cons {cs : List Char} {n : Nat} (h : Digits cs n) :
    ∃ c ds, cs = c :: ds ∧ c.isDigit = true := by
  obtain ⟨hne, hdigits, -⟩ := digits_iff.1 h
  obtain ⟨c, ds, rfl⟩ := List.exists_cons_of_ne_nil hne
  exact ⟨c, ds, rfl, hdigits c List.mem_cons_self⟩

theorem natural?_eq_some_iff {cs : List Char} {n : Nat} : natural? cs = some n ↔ Digits cs n := by
  rw [natural?_eq_some, digits_iff]

/-- A sign is read off first, where what may follow it does not start with one. -/
theorem signed_iff {α : Type} [Neg α] {P : List Char → α → Prop}
    (hP : ∀ {c cs x}, P (c :: cs) x → c ≠ '+' ∧ c ≠ '-') {cs : List Char} {x : α} :
    Signed P cs x ↔
      ∃ y, P (splitSign cs).2 y ∧ (if (splitSign cs).1 then -y else y) = x := by
  constructor
  · intro h
    cases h with
    | @unsigned cs x h =>
        unfold splitSign
        split
        · exact absurd rfl (hP h).1
        · exact absurd rfl (hP h).2
        · exact ⟨x, h, rfl⟩
    | plus h => exact ⟨_, h, rfl⟩
    | minus h => exact ⟨_, h, rfl⟩
  · rintro ⟨y, h, rfl⟩
    unfold splitSign at h ⊢
    split at h
    · exact .plus h
    · exact .minus h
    · exact .unsigned h

theorem Signed.exists_of_imp {α β : Type} [Neg α] [Neg β] {P : List Char → α → Prop}
    {Q : List Char → β → Prop} (hPQ : ∀ cs x, P cs x → ∃ y, Q cs y) {cs : List Char} {x : α}
    (h : Signed P cs x) : ∃ y, Signed Q cs y := by
  cases h with
  | unsigned h =>
      obtain ⟨y, hy⟩ := hPQ _ _ h
      exact ⟨y, .unsigned hy⟩
  | plus h =>
      obtain ⟨y, hy⟩ := hPQ _ _ h
      exact ⟨y, .plus hy⟩
  | minus h =>
      obtain ⟨y, hy⟩ := hPQ _ _ h
      exact ⟨-y, .minus hy⟩

theorem ne_sign_of_isDigit {c : Char} (hc : c.isDigit = true) : c ≠ '+' ∧ c ≠ '-' := by
  constructor
  · rintro rfl
    cases hc
  · rintro rfl
    cases hc

theorem Whole.ne_sign {c : Char} {cs : List Char} {n : Int} (h : Whole (c :: cs) n) :
    c ≠ '+' ∧ c ≠ '-' := by
  obtain ⟨hdigits⟩ := h
  obtain ⟨_, _, hcs, hc⟩ := hdigits.exists_cons
  cases hcs
  exact ne_sign_of_isDigit hc

theorem integer?_eq_some_iff {cs : List Char} {n : Int} :
    integer? cs = some n ↔ IntegerNumeral cs n := by
  rw [IntegerNumeral, signed_iff Whole.ne_sign, integer?_eq_some]
  constructor
  · rintro ⟨m, hm, rfl⟩
    exact ⟨m, .mk (natural?_eq_some_iff.1 hm), rfl⟩
  · rintro ⟨_, ⟨hm⟩, rfl⟩
    exact ⟨_, natural?_eq_some_iff.2 hm, rfl⟩

theorem int64?_eq_some_iff {cs : List Char} {n : Int64} :
    int64? cs = some n ↔ IntegerNumeral cs n.toInt := by
  simp only [int64?, Option.bind_eq_some_iff, integer?_eq_some_iff, word?_eq_some_iff]
  constructor
  · rintro ⟨m, hm, rfl⟩
    exact hm
  · exact fun h => ⟨n.toInt, h, rfl⟩

/-! ## Decimals -/

/-- A text is split where its first digits end. -/
theorem spanDigits_eq_iff {cs ds rest : List Char} :
    spanDigits cs = (ds, rest) ↔ cs = ds ++ rest ∧ (∀ c ∈ ds, c.isDigit = true) ∧
      ∀ c ∈ rest.head?, c.isDigit = false := by
  constructor
  · rintro ⟨⟩
    refine ⟨List.takeWhile_append_dropWhile.symm, List.all_eq_true.1 List.all_takeWhile, ?_⟩
    intro c hc
    have hstop := List.head?_dropWhile_not Char.isDigit cs
    rwa [Option.mem_def.1 hc] at hstop
  · rintro ⟨rfl, hdigits, hrest⟩
    rw [spanDigits, List.takeWhile_append_of_pos hdigits, List.dropWhile_append_of_pos hdigits]
    cases rest with
    | nil => rw [List.takeWhile_nil, List.dropWhile_nil, List.append_nil]
    | cons c cs =>
        have hc : ¬c.isDigit = true := by
          rw [hrest c rfl]
          exact Bool.false_ne_true
        rw [List.takeWhile_cons_of_neg hc, List.dropWhile_cons_of_neg hc, List.append_nil]

theorem exponent?_eq_some_iff {cs : List Char} {e : Int} :
    exponent? cs = some e ↔ Exponent cs e := by
  constructor
  · intro h
    unfold exponent? at h
    split at h
    · cases h
      exact .none
    · next c cs =>
      split at h
      · next hc =>
        rw [Bool.or_eq_true, decide_eq_true_iff, decide_eq_true_iff] at hc
        exact .some hc (integer?_eq_some_iff.1 h)
      · cases h
  · intro h
    cases h with
    | none => rfl
    | some hc hcs =>
        rw [exponent?, if_pos, integer?_eq_some_iff.2 hcs]
        rw [Bool.or_eq_true, decide_eq_true_iff, decide_eq_true_iff]
        exact hc

theorem Exponent.of_mem_head? {cs : List Char} {e : Int} (h : Exponent cs e) :
    ∀ c ∈ cs.head?, c = 'e' ∨ c = 'E' := by
  cases h with
  | none => nofun
  | some hc _ =>
      rintro c ⟨⟩
      exact hc

theorem Exponent.isDigit_eq_false {cs : List Char} {e : Int} (h : Exponent cs e) :
    ∀ c ∈ cs.head?, c.isDigit = false := by
  intro c hc
  rcases h.of_mem_head? c hc with rfl | rfl <;> rfl

theorem decimal?_of_point {cs whole rest fraction tail : List Char}
    (h : spanDigits cs = (whole, '.' :: rest)) (h' : spanDigits rest = (fraction, tail)) :
    decimal? cs = if whole ++ fraction = [] then none
      else (exponent? tail).map fun e =>
        ⟨Nat.ofDigitChars 10 (whole ++ fraction) 0, -fraction.length + e⟩ := by
  unfold decimal?
  rw [h]
  dsimp only
  split
  · next rest' heq =>
    cases heq
    rw [h']
    simp [Int.sub_eq_add_neg, Int.add_comm]
  · next hne => exact absurd rfl (hne rest)

theorem decimal?_of_no_point {cs whole rest : List Char} (h : spanDigits cs = (whole, rest))
    (hpoint : rest.head? ≠ some '.') :
    decimal? cs = if whole = [] then none
      else (exponent? rest).map fun e => ⟨Nat.ofDigitChars 10 whole 0, 0 + e⟩ := by
  unfold decimal?
  rw [h]
  dsimp only
  split
  · exact absurd rfl hpoint
  · simp

/-- A decimal is read from digits with a point, or without one, and the exponent
that comes after them. -/
theorem decimal?_eq_some_iff {cs : List Char} {d : Decimal} :
    decimal? cs = some d ↔ ∃ ds es m e, cs = ds ++ es ∧ Mantissa ds m ∧ Exponent es e ∧
      d = ⟨m.digits, m.exponent + e⟩ := by
  constructor
  · intro h
    rcases hspan : spanDigits cs with ⟨whole, rest⟩
    obtain ⟨rfl, hwhole, -⟩ := spanDigits_eq_iff.1 hspan
    by_cases hpoint : rest.head? = some '.'
    · obtain ⟨rest, rfl⟩ := List.head?_eq_some_iff.1 hpoint
      rcases hspan' : spanDigits rest with ⟨fraction, tail⟩
      obtain ⟨rfl, hfraction, -⟩ := spanDigits_eq_iff.1 hspan'
      rw [decimal?_of_point hspan hspan', Option.ite_none_left_eq_some] at h
      obtain ⟨hne, h⟩ := h
      obtain ⟨e, he, rfl⟩ := Option.map_eq_some_iff.1 h
      have hdigits := digits_iff.2 ⟨hne, List.forall_mem_append.2 ⟨hwhole, hfraction⟩, rfl⟩
      exact ⟨whole ++ '.' :: fraction, tail, _, e, by simp, .point hdigits,
        exponent?_eq_some_iff.1 he, rfl⟩
    · rw [decimal?_of_no_point hspan hpoint, Option.ite_none_left_eq_some] at h
      obtain ⟨hne, h⟩ := h
      obtain ⟨e, he, rfl⟩ := Option.map_eq_some_iff.1 h
      exact ⟨whole, rest, _, e, rfl, .whole (digits_iff.2 ⟨hne, hwhole, rfl⟩),
        exponent?_eq_some_iff.1 he, rfl⟩
  -- What comes after the digits does not start with one, so that they end where they did.
  · rintro ⟨ds, es, m, e, rfl, hm, he, rfl⟩
    cases hm with
    | whole hds =>
        obtain ⟨hne, hdigits, rfl⟩ := digits_iff.1 hds
        have hspan : spanDigits (ds ++ es) = (ds, es) :=
          spanDigits_eq_iff.2 ⟨rfl, hdigits, he.isDigit_eq_false⟩
        have hpoint : es.head? ≠ some '.' := by
          intro hhead
          rcases he.of_mem_head? '.' hhead with hc | hc <;> cases hc
        rw [decimal?_of_no_point hspan hpoint, if_neg hne, exponent?_eq_some_iff.2 he,
          Option.map_some]
    | @point whole fraction n hds =>
        obtain ⟨hne, hdigits, rfl⟩ := digits_iff.1 hds
        obtain ⟨hwhole, hfraction⟩ := List.forall_mem_append.1 hdigits
        have hpoint : ∀ c ∈ ('.' :: (fraction ++ es)).head?, c.isDigit = false := by
          rintro c ⟨⟩
          rfl
        have hspan : spanDigits (whole ++ '.' :: (fraction ++ es)) =
            (whole, '.' :: (fraction ++ es)) :=
          spanDigits_eq_iff.2 ⟨rfl, hwhole, hpoint⟩
        have hspan' : spanDigits (fraction ++ es) = (fraction, es) :=
          spanDigits_eq_iff.2 ⟨rfl, hfraction, he.isDigit_eq_false⟩
        rw [List.append_assoc, List.cons_append, decimal?_of_point hspan hspan', if_neg hne,
          exponent?_eq_some_iff.2 he, Option.map_some]

/-! ## Floats -/

theorem toLower_eq_iff {c letter : Char} (h : letter.isLower = true) :
    c.toLower = letter ↔ c = letter ∨ c = letter.toUpper := by
  constructor
  · rintro rfl
    by_cases hc : c.isUpper = true
    · right
      rw [Char.toUpper_toLower_eq_toUpper, Char.toUpper_eq_of_not_isLower]
      exact Char.not_isLower_of_isUpper hc
    · exact .inl (Char.toLower_eq_of_not_isUpper hc).symm
  · have hlower : letter.toLower = letter :=
      Char.toLower_eq_of_not_isUpper (Char.not_isUpper_of_isLower h)
    rintro (rfl | rfl)
    · exact hlower
    · rw [Char.toLower_toUpper_eq_toLower, hlower]

theorem spells_iff {word : String} (h : word.toList.all Char.isLower = true) {cs : List Char} :
    Spells word cs ↔ cs.map Char.toLower = word.toList := by
  rw [Spells]
  rw [List.all_eq_true] at h
  generalize word.toList = letters at h
  induction letters generalizing cs with
  | nil => simp
  | cons letter letters ih =>
      obtain ⟨hletter, hletters⟩ := List.forall_mem_cons.1 h
      cases cs with
      | nil => simp
      | cons c cs => simp [toLower_eq_iff hletter, ih hletters]

theorem Spells.isAlpha {word : String} (h : word.toList.all Char.isLower = true) {c : Char}
    {cs : List Char} (hcs : Spells word (c :: cs)) : c.isAlpha = true := by
  rw [spells_iff h, List.map_cons] at hcs
  rw [← Char.isLower_toLower_eq_isAlpha]
  exact List.all_eq_true.1 h _ (hcs ▸ List.mem_cons_self)

theorem Mantissa.exists_cons {cs : List Char} {d : Decimal} (h : Mantissa cs d) :
    ∃ c ds, cs = c :: ds ∧ (c.isDigit = true ∨ c = '.') := by
  cases h with
  | whole hcs =>
      obtain ⟨c, ds, rfl, hc⟩ := hcs.exists_cons
      exact ⟨c, ds, rfl, .inl hc⟩
  | @point whole fraction n hcs =>
      cases whole with
      | nil => exact ⟨'.', fraction, rfl, .inr rfl⟩
      | cons c whole =>
          obtain ⟨_, _, heq, hc⟩ := hcs.exists_cons
          cases heq
          exact ⟨c, whole ++ '.' :: fraction, rfl, .inl hc⟩

theorem isAlpha_eq_false {c : Char} (h : c.isDigit = true ∨ c = '.') : c.isAlpha = false := by
  rcases h with h | rfl
  · have hrange := toNat_of_isDigit h
    simp [Char.isAlpha, Char.isUpper, Char.isLower, UInt32.le_iff_toNat_le]
    omega
  · rfl

theorem Mantissa.not_spells {word : String} (h : word.toList.all Char.isLower = true)
    {cs ds : List Char} {d : Decimal} (hcs : Mantissa cs d) : ¬Spells word (cs ++ ds) := by
  obtain ⟨c, es, rfl, hc⟩ := hcs.exists_cons
  intro hspells
  rw [List.cons_append] at hspells
  exact absurd (hspells.isAlpha h) (by simp [isAlpha_eq_false hc])

theorem magnitude?_eq_some_iff {cs : List Char} {x : Float} :
    magnitude? cs = some x ↔ Magnitude cs x := by
  have hinf : (decide (cs.map Char.toLower = "inf".toList) ||
      decide (cs.map Char.toLower = "infinity".toList)) = true ↔
        Spells "inf" cs ∨ Spells "infinity" cs := by
    rw [Bool.or_eq_true, decide_eq_true_iff, decide_eq_true_iff]
    exact or_congr (Iff.symm (spells_iff rfl)) (Iff.symm (spells_iff rfl))
  have hnan : cs.map Char.toLower = "nan".toList ↔ Spells "nan" cs :=
    Iff.symm (spells_iff rfl)
  unfold magnitude?
  dsimp only
  constructor
  · intro h
    split at h
    · next h' =>
      cases h
      exact .infinity (hinf.1 h')
    · split at h
      · next h' =>
        cases h
        exact .nan (hnan.1 h')
      · obtain ⟨d, hd, rfl⟩ := Option.map_eq_some_iff.1 h
        obtain ⟨ds, es, m, e, rfl, hm, he, rfl⟩ := decimal?_eq_some_iff.1 hd
        exact .decimal hm he
  · intro h
    cases h with
    | infinity h => rw [if_pos (hinf.2 h)]
    | nan h =>
        have hword := hnan.2 h
        rw [hword, if_neg (by decide), if_pos rfl]
    -- The words are tried first, and a numeral in digits is none of them.
    | @decimal ds es m e hm he =>
        have hnot : ¬(Spells "inf" (ds ++ es) ∨ Spells "infinity" (ds ++ es)) :=
          not_or.2 ⟨hm.not_spells rfl, hm.not_spells rfl⟩
        rw [if_neg (mt hinf.1 hnot), if_neg (mt hnan.1 (hm.not_spells rfl)),
          decimal?_eq_some_iff.2 ⟨ds, es, m, e, rfl, hm, he, rfl⟩, Option.map_some]

theorem Magnitude.ne_sign {c : Char} {cs : List Char} {x : Float} (h : Magnitude (c :: cs) x) :
    c ≠ '+' ∧ c ≠ '-' := by
  have hletter : c.isAlpha = true → c ≠ '+' ∧ c ≠ '-' := by
    intro hc
    constructor <;> rintro rfl <;> cases hc
  generalize hcs : c :: cs = text at h
  cases h with
  | infinity h =>
      subst hcs
      rcases h with h | h
      · exact hletter (h.isAlpha rfl)
      · exact hletter (h.isAlpha rfl)
  | nan h =>
      subst hcs
      exact hletter (h.isAlpha rfl)
  | decimal h _ =>
      obtain ⟨c', es, rfl, hc⟩ := h.exists_cons
      cases hcs
      rcases hc with hc | rfl
      · exact ne_sign_of_isDigit hc
      · decide

theorem float?_eq_some_iff {cs : List Char} {x : Float} :
    float? cs = some x ↔ FloatNumeral cs x := by
  rw [FloatNumeral, signed_iff Magnitude.ne_sign, float?]
  simp only [Option.map_eq_some_iff, magnitude?_eq_some_iff]

theorem int64?_eq_none_iff {cs : List Char} :
    int64? cs = none ↔ ∀ n : Int64, ¬IntegerNumeral cs n.toInt := by
  simp only [Option.eq_none_iff_forall_ne_some, ne_eq, int64?_eq_some_iff]

theorem float?_eq_none_iff {cs : List Char} : float? cs = none ↔ ∀ x, ¬FloatNumeral cs x := by
  simp only [Option.eq_none_iff_forall_ne_some, ne_eq, float?_eq_some_iff]

/-- The numeral of an integer is that of a float too. -/
theorem IntegerNumeral.exists_floatNumeral {cs : List Char} {n : Int} (h : IntegerNumeral cs n) :
    ∃ x, FloatNumeral cs x := by
  refine Signed.exists_of_imp ?_ h
  rintro ds _ ⟨hds⟩
  have hdecimal := Magnitude.decimal (.whole hds) .none
  rw [List.append_nil] at hdecimal
  exact ⟨_, hdecimal⟩

end Number

/-! ## Atoms -/

namespace Datum

open Number

/-- An atom is the integer that it is the numeral of, if that is a word. If it is
not, it is the float that it is the numeral of, such as an integer beyond the
words; and if it is no numeral at all, it is the symbol with its own text. -/
theorem ofAtom_classified (text : String) :
    (∀ n : Int64, ofAtom text = .int n ↔ IntegerNumeral text.toList n.toInt) ∧
    (∀ x, ofAtom text = .float x ↔
      (∀ n : Int64, ¬IntegerNumeral text.toList n.toInt) ∧ FloatNumeral text.toList x) ∧
    (∀ n, IntegerNumeral text.toList n → n < -0x8000000000000000 ∨ 0x8000000000000000 ≤ n →
      ∃ x, ofAtom text = .float x) ∧
    (∀ name, ofAtom text = .symbol name ↔ name = text ∧
      (∀ n : Int64, ¬IntegerNumeral text.toList n.toInt) ∧ ∀ x, ¬FloatNumeral text.toList x) := by
  simp only [ofAtom_eq_int_iff, ofAtom_eq_float_iff, ofAtom_eq_symbol_iff, int64?_eq_some_iff,
    int64?_eq_none_iff, float?_eq_some_iff, float?_eq_none_iff, true_and, implies_true, and_true]
  intro n hn hbeyond
  obtain ⟨x, hx⟩ := hn.exists_floatNumeral
  refine ⟨x, int64?_eq_none_iff.1 ?_, hx⟩
  rw [int64?, integer?_eq_some_iff.2 hn, Option.bind_some]
  exact word?_eq_none_iff.2 hbeyond

/-- The first integer beyond the words, with a sign. -/
theorem ofAtom_classified_beyond :
    IntegerNumeral "+9223372036854775808".toList 0x8000000000000000 ∧
      (0x8000000000000000 : Int) ≤ 0x8000000000000000 ∧
      ∃ x, ofAtom "+9223372036854775808" = .float x := by
  have hnumeral : IntegerNumeral "+9223372036854775808".toList 0x8000000000000000 :=
    integer?_eq_some_iff.1 (by decide)
  exact ⟨hnumeral, le_refl _, (ofAtom_classified _).2.2.1 _ hnumeral (.inr (le_refl _))⟩

example : ofAtom "-9223372036854775808" = .int Int64.minValue := rfl

example : ofAtom "1e" = .symbol "1e" := rfl

end Datum

end TwinScheme
