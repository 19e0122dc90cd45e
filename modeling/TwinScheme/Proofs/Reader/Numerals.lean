import TwinScheme.Datum.Basic
import TwinScheme.Datum.Token
import TwinScheme.Number.Printer

/-!
# Numbers as texts

The text of an integer is the numeral of that integer, the least one included,
whose magnitude is no word. The text of a float is no integer numeral, because
it has a point, an exponent or a letter in it. Both are single atoms. That the
text of a float denotes the float is a property of the search for its digits
that is not taken up here.
-/

namespace TwinScheme

/-- A character that may stand in an atom. -/
def Token.isPlain (c : Char) : Bool :=
  !(Text.isBlank c || c == '(' || c == ')')

/-- A text that is a single atom. -/
structure Token.IsAtom (cs : List Char) : Prop where
  ne_nil : cs ≠ []
  plain : ∀ c ∈ cs, Token.isPlain c = true

namespace Number

/-! ## Integers -/

theorem toNat_of_isDigit {c : Char} (h : c.isDigit = true) : 48 ≤ c.toNat ∧ c.toNat ≤ 57 := by
  simpa [Char.isDigit, UInt32.le_iff_toNat_le] using h

theorem natural?_eq_some {cs : List Char} {n : Nat} :
    natural? cs = some n ↔
      cs ≠ [] ∧ (∀ c ∈ cs, c.isDigit = true) ∧ Nat.ofDigitChars 10 cs 0 = n := by
  simp [natural?, and_assoc]

theorem integer?_eq_some {cs : List Char} {n : Int} :
    integer? cs = some n ↔ ∃ m, natural? (splitSign cs).2 = some m ∧
      (if (splitSign cs).1 then -(m : Int) else m) = n := by
  simp only [integer?, Option.map_eq_some_iff, Option.bind_eq_bind, Option.bind_eq_some_iff,
    Option.pure_def, Option.some.injEq]
  constructor
  · rintro ⟨_, ⟨m, hm, rfl⟩, rfl⟩
    exact ⟨m, hm, rfl⟩
  · rintro ⟨m, hm, rfl⟩
    exact ⟨_, ⟨m, hm, rfl⟩, rfl⟩

theorem natural?_toDigits (n : Nat) : natural? (Nat.toDigits 10 n) = some n := by
  have hdigits : ∀ c ∈ Nat.toDigits 10 n, c.isDigit = true :=
    fun _ hc => Nat.isDigit_of_mem_toDigits (by decide) (by decide) hc
  exact natural?_eq_some.2 ⟨Nat.toDigits_ne_nil, hdigits, Nat.ofDigitChars_ten_toDigits⟩

theorem splitSign_toDigits (n : Nat) :
    splitSign (Nat.toDigits 10 n) = (false, Nat.toDigits 10 n) := by
  obtain ⟨c, cs, h⟩ := List.exists_cons_of_ne_nil (Nat.toDigits_ne_nil (n := n) (b := 10))
  have hc : c.isDigit = true :=
    Nat.isDigit_of_mem_toDigits (by decide) (by decide) (h ▸ List.mem_cons_self)
  rw [h]
  unfold splitSign
  split
  · next heq =>
    cases heq
    cases hc
  · next heq =>
    cases heq
    cases hc
  · rfl

theorem integer?_integerText (n : Int) : integer? (integerText n).toList = some n := by
  rw [integerText, String.toList_ofList]
  split
  · next hneg =>
    have hvalue : -(n.natAbs : Int) = n := by omega
    simp only [integer?, splitSign, natural?_toDigits]
    exact congrArg some hvalue
  · next hpos =>
    have hvalue : (n.natAbs : Int) = n := by omega
    simp only [integer?, splitSign_toDigits, natural?_toDigits]
    exact congrArg some hvalue

theorem int64?_integerText (n : Int64) : int64? (integerText n.toInt).toList = some n := by
  rw [int64?, integer?_integerText, Option.bind_some, word?_toInt]

/-! ## Characters of numerals -/

theorem isPlain_of_isDigit {c : Char} (h : c.isDigit = true) : Token.isPlain c = true := by
  have hrange := toNat_of_isDigit h
  have hopening : c ≠ '(' := by
    rintro rfl
    exact absurd hrange (by decide)
  have hclosing : c ≠ ')' := by
    rintro rfl
    exact absurd hrange (by decide)
  have hblank : Text.isBlank c = false := by
    simp only [Text.isBlank, Bool.or_eq_false_iff, Bool.and_eq_false_iff, decide_eq_false_iff_not,
      beq_eq_false_iff_ne]
    omega
  simp [Token.isPlain, hblank, hopening, hclosing]

theorem integerText_isAtom (n : Int) : Token.IsAtom (integerText n).toList := by
  have hdigits : ∀ c ∈ Nat.toDigits 10 n.natAbs, Token.isPlain c = true :=
    fun c hc => isPlain_of_isDigit (Nat.isDigit_of_mem_toDigits (by decide) (by decide) hc)
  rw [integerText, String.toList_ofList]
  split
  · exact ⟨by simp, List.forall_mem_cons.2 ⟨by decide, hdigits⟩⟩
  · exact ⟨Nat.toDigits_ne_nil, hdigits⟩

/-- What is not after the sign of a text is the sign. -/
theorem mem_splitSign {cs : List Char} {c : Char} (hc : c ∈ cs) :
    c ∈ (splitSign cs).2 ∨ c = '+' ∨ c = '-' := by
  unfold splitSign
  split
  · exact (List.mem_cons.1 hc).symm.imp_right .inl
  · exact (List.mem_cons.1 hc).symm.imp_right .inr
  · exact .inl hc

/-- An integer numeral is made of digits and a sign. -/
theorem of_mem_integer? {cs : List Char} {n : Int} (h : integer? cs = some n) {c : Char}
    (hc : c ∈ cs) : c.isDigit = true ∨ c = '+' ∨ c = '-' := by
  obtain ⟨m, hm, -⟩ := integer?_eq_some.1 h
  exact (mem_splitSign hc).imp_left ((natural?_eq_some.1 hm).2.1 c)

/-! ## Floats -/

/-- Characters of the text of a float that is a number. -/
def isFloatChar (c : Char) : Bool :=
  c.isDigit || c ∈ ['.', 'e', '-', 'i', 'n', 'f']

/-- The characters among them that no integer numeral has. -/
def marksFloat (c : Char) : Bool :=
  c ∈ ['.', 'e', 'i']

/-- A text of a float: an atom that is no integer numeral. -/
structure IsFloatText (cs : List Char) : Prop where
  chars : ∀ c ∈ cs, isFloatChar c = true
  mark : ∃ c ∈ cs, marksFloat c = true

namespace IsFloatText

variable {cs : List Char}

theorem isAtom (h : IsFloatText cs) : Token.IsAtom cs := by
  obtain ⟨hchars, c, hc, -⟩ := h
  refine ⟨List.ne_nil_of_mem hc, fun c hc => ?_⟩
  have hfloat := hchars c hc
  rw [isFloatChar, Bool.or_eq_true, decide_eq_true_iff] at hfloat
  rcases hfloat with hdigit | hmem
  · exact isPlain_of_isDigit hdigit
  · have hmarks : ∀ c ∈ ['.', 'e', '-', 'i', 'n', 'f'], Token.isPlain c = true :=
      List.all_eq_true.1 rfl
    exact hmarks c hmem

theorem int64?_eq_none (h : IsFloatText cs) : int64? cs = none := by
  obtain ⟨-, c, hc, hmark⟩ := h
  cases hn : integer? cs with
  | none => rw [int64?, hn, Option.bind_none]
  | some n =>
      simp only [marksFloat, decide_eq_true_iff, List.mem_cons, List.not_mem_nil, or_false]
        at hmark
      rcases hmark with rfl | rfl | rfl
      · exact absurd (of_mem_integer? hn hc) (by decide)
      · exact absurd (of_mem_integer? hn hc) (by decide)
      · exact absurd (of_mem_integer? hn hc) (by decide)

theorem cons_minus (h : IsFloatText cs) : IsFloatText ('-' :: cs) := by
  obtain ⟨hchars, c, hc, hmark⟩ := h
  exact ⟨List.forall_mem_cons.2 ⟨by decide, hchars⟩, c, List.mem_cons_of_mem _ hc, hmark⟩

end IsFloatText

theorem lay_isFloatText (style : Layout) {digits : List Char}
    (hdigits : ∀ c ∈ digits, c.isDigit = true) (point : Int) :
    IsFloatText (style.lay digits point) := by
  have hchars : ∀ c ∈ digits, isFloatChar c = true := by
    intro c hc
    rw [isFloatChar, hdigits c hc, Bool.true_or]
  have hzeros : ∀ n, ∀ c ∈ List.replicate n '0', isFloatChar c = true := by
    intro n c hc
    rw [List.eq_of_mem_replicate hc]
    rfl
  have hexponent : ∀ n, ∀ c ∈ Nat.toDigits 10 n, isFloatChar c = true := by
    intro n c hc
    rw [isFloatChar, Nat.isDigit_of_mem_toDigits (by decide) (by decide) hc, Bool.true_or]
  have hmark : ∀ c ∈ 'e' :: ((if point - 1 < 0 then ['-'] else []) ++
      Nat.toDigits 10 (point - 1).natAbs), isFloatChar c = true := by
    refine List.forall_mem_cons.2 ⟨by decide, List.forall_mem_append.2 ⟨?_, hexponent _⟩⟩
    split <;> exact List.all_eq_true.1 rfl
  have hzeroPoint : ∀ c ∈ ['0', '.'], isFloatChar c = true := List.all_eq_true.1 rfl
  have hpointZero : ∀ c ∈ ['.', '0'], isFloatChar c = true := List.all_eq_true.1 rfl
  have hpoint : ∀ c ∈ ['.'], isFloatChar c = true := List.all_eq_true.1 rfl
  unfold Layout.lay
  split
  · split
    · exact ⟨List.forall_mem_append.2 ⟨List.forall_mem_append.2 ⟨hzeroPoint, hzeros _⟩, hchars⟩,
        '.', by simp, by decide⟩
    · split
      · exact ⟨List.forall_mem_append.2 ⟨List.forall_mem_append.2 ⟨hchars, hzeros _⟩, hpointZero⟩,
          '.', by simp, by decide⟩
      · refine ⟨List.forall_mem_append.2 ⟨List.forall_mem_append.2 ⟨?_, hpoint⟩, ?_⟩,
          '.', by simp, by decide⟩
        · exact fun c hc => hchars c (List.mem_of_mem_take hc)
        · exact fun c hc => hchars c (List.mem_of_mem_drop hc)
  · dsimp only
    split
    · exact ⟨hmark, 'e', by simp, by decide⟩
    · obtain ⟨hd, -⟩ := List.forall_mem_cons.1 hchars
      exact ⟨List.forall_mem_cons.2 ⟨hd, hmark⟩, 'e', by simp, by decide⟩
    · obtain ⟨hd, hds⟩ := List.forall_mem_cons.1 hchars
      refine ⟨?_, '.', by simp, by decide⟩
      exact List.forall_mem_cons.2 ⟨hd, List.forall_mem_cons.2
        ⟨by decide, List.forall_mem_append.2 ⟨hds, hmark⟩⟩⟩

theorem text_isFloatText (b : Binary) : IsFloatText b.text := by
  unfold Binary.text
  split
  · exact ⟨List.all_eq_true.1 rfl, '.', by simp, rfl⟩
  · exact lay_isFloatText _ (fun _ hc => Nat.isDigit_of_mem_toDigits (by decide) (by decide) hc) _

/-- The text of a float that is a number is an atom and no integer numeral. -/
theorem floatText_isFloatText {x : Float} (hx : x.isNaN = false) :
    IsFloatText (floatText x).toList := by
  rw [floatText, hx, if_neg Bool.false_ne_true]
  split
  · split <;> exact ⟨List.all_eq_true.1 rfl, 'i', by decide, rfl⟩
  · rw [String.toList_ofList]
    split
    · exact (text_isFloatText _).cons_minus
    · exact text_isFloatText _

end Number

/-! ## Atoms -/

namespace Datum

open Number

variable {text : String}

theorem ofAtom_eq_int_iff {n : Int64} : ofAtom text = .int n ↔ int64? text.toList = some n := by
  rw [ofAtom]
  cases int64? text.toList with
  | some m => simp
  | none => cases float? text.toList <;> simp

theorem ofAtom_eq_float_iff {x : Float} :
    ofAtom text = .float x ↔ int64? text.toList = none ∧ float? text.toList = some x := by
  rw [ofAtom]
  cases int64? text.toList with
  | some m => simp
  | none => cases float? text.toList <;> simp

theorem ofAtom_eq_symbol_iff {name : String} :
    ofAtom text = .symbol name ↔
      name = text ∧ int64? text.toList = none ∧ float? text.toList = none := by
  rw [ofAtom]
  cases int64? text.toList with
  | some m => simp
  | none => cases float? text.toList <;> simp [eq_comm]

theorem ofAtom_ne_list (text : String) (items : List Datum) : ofAtom text ≠ .list items := by
  rw [ofAtom]
  cases int64? text.toList with
  | some m => exact nofun
  | none => cases float? text.toList <;> exact nofun

end Datum

end TwinScheme
