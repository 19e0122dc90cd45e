import TwinScheme.Observation
import TwinScheme.Proofs.Reader.Grammar
import TwinScheme.Proofs.Text.Trimming

/-!
# How results are written

A printed result is one of two words or the numeral of an integer of the language,
with any blanks around it. That is said without reading: by what is left between the
blanks, and by the grammar of numerals, which carries the value along. What is read
is exactly that; and since the text of a result is such a text and has no blank in
it, a result is read back from its text wherever blanks are put around it.
-/

namespace TwinScheme

/-- An atom stands out between blanks. -/
theorem Token.IsAtom.trims {before cs after : List Char} (h : IsAtom cs)
    (hbefore : ∀ c ∈ before, Text.isBlank c = true)
    (hafter : ∀ c ∈ after, Text.isBlank c = true) : Text.Trims (before ++ cs ++ after) cs := by
  have hnot : ∀ c ∈ cs, Text.isBlank c = false := by
    intro c hc
    have hplain := h.plain c hc
    simp only [isPlain, Bool.not_eq_true', Bool.or_eq_false_iff] at hplain
    exact hplain.1.1
  exact ⟨⟨before, after, rfl, hbefore, hafter⟩, fun c hc => hnot c (List.mem_of_mem_head? hc),
    fun c hc => hnot c (List.mem_of_mem_getLast? hc)⟩

theorem Token.IsAtom.trims_self {cs : List Char} (h : IsAtom cs) : Text.Trims cs cs := by
  have hbare := h.trims (List.forall_mem_nil _) (List.forall_mem_nil _)
  rwa [List.nil_append, List.append_nil] at hbare

namespace Observation

/-- The texts of results: a word for either truth value, and the numerals of the
integers of the language. -/
inductive Written : List Char → Observation → Prop
  | true : Written "#t".toList (.bool true)
  | false : Written "#f".toList (.bool false)
  | int {cs : List Char} {n : Int64} : Number.IntegerNumeral cs n.toInt → Written cs (.int n)

variable {text : String} {middle : List Char} {o : Observation}

/-- What is read from between the blanks of a text. -/
theorem ofText_of_trims (h : Text.Trims text.toList middle) :
    ofText text =
      if middle = "#t".toList then .ok (.bool true)
      else if middle = "#f".toList then .ok (.bool false)
      else
        match Number.int64? middle with
        | some n => .ok (.int n)
        | none => .error (String.ofList middle) := by
  obtain rfl := h.trim_eq
  rfl

/-- No word for a truth value is the numeral of an integer. -/
theorem ofText_eq_ok_iff (h : Text.Trims text.toList middle) :
    ofText text = .ok o ↔ Written middle o := by
  rw [ofText_of_trims h]
  constructor
  · intro hread
    split at hread
    · next hmiddle =>
      cases hread
      exact hmiddle ▸ .true
    · split at hread
      · next hmiddle =>
        cases hread
        exact hmiddle ▸ .false
      · split at hread
        · next n hn =>
          cases hread
          exact .int (Number.int64?_eq_some_iff.1 hn)
        · cases hread
  · intro hwritten
    cases hwritten with
    | true => rfl
    | false => rfl
    | @int _ n hn =>
        have hn : Number.int64? middle = some n := Number.int64?_eq_some_iff.2 hn
        have htrue : middle ≠ "#t".toList := by
          rintro rfl
          cases hn
        have hfalse : middle ≠ "#f".toList := by
          rintro rfl
          cases hn
        rw [if_neg htrue, if_neg hfalse, hn]

/-- A text that no result has is given back without its blanks. -/
theorem ofText_eq_error_iff (h : Text.Trims text.toList middle) {rest : String} :
    ofText text = .error rest ↔ (∀ o, ¬Written middle o) ∧ rest = String.ofList middle := by
  have hok : ∀ o, ofText text = .ok o ↔ Written middle o := fun o => ofText_eq_ok_iff h
  cases hread : ofText text with
  | ok o =>
      simp only [reduceCtorEq, false_iff]
      rintro ⟨hnone, -⟩
      exact hnone o ((hok o).1 hread)
  | error rest' =>
      have hrest : rest' = String.ofList middle := by
        rw [ofText_of_trims h] at hread
        split at hread
        · cases hread
        · split at hread
          · cases hread
          · split at hread
            · cases hread
            · exact (Except.error.inj hread).symm
      have hnone : ∀ o, ¬Written middle o := by
        intro o ho
        rw [(hok o).2 ho] at hread
        cases hread
      rw [Except.error.injEq, hrest]
      exact ⟨fun heq => ⟨hnone, heq.symm⟩, fun hboth => hboth.2.symm⟩

theorem text_isAtom (o : Observation) : Token.IsAtom o.text.toList := by
  cases o with
  | bool b => cases b <;> exact ⟨by decide, List.all_eq_true.1 rfl⟩
  | int n => exact Number.integerText_isAtom n.toInt

theorem written_text (o : Observation) : Written o.text.toList o := by
  cases o with
  | bool b =>
      cases b
      · exact .false
      · exact .true
  | int n => exact .int (Number.int64?_eq_some_iff.1 (Number.int64?_integerText n))

theorem ofText_text_between (o : Observation) {before after : String}
    (hbefore : ∀ c ∈ before.toList, Text.isBlank c = true)
    (hafter : ∀ c ∈ after.toList, Text.isBlank c = true) :
    ofText (before ++ o.text ++ after) = .ok o := by
  refine (ofText_eq_ok_iff ?_).2 o.written_text
  rw [String.toList_append, String.toList_append]
  exact o.text_isAtom.trims hbefore hafter

/-- A result is read from a text exactly if what is left of the text between its
blanks is a word for a truth value or the numeral of an integer of the language, and
what is left is given back if it is nothing of the kind. So a result is read back
from its own text, with any blanks around it. -/
theorem ofText_exact :
    (∀ text : String, ∃ middle, Text.Trims text.toList middle) ∧
    (∀ text middle, Text.Trims text.toList middle →
      (∀ o, ofText text = .ok o ↔ Written middle o) ∧
      ∀ rest, ofText text = .error rest ↔
        (∀ o, ¬Written middle o) ∧ rest = String.ofList middle) ∧
    ∀ (o : Observation) (before after : String), (∀ c ∈ before.toList, Text.isBlank c = true) →
      (∀ c ∈ after.toList, Text.isBlank c = true) →
      ofText (before ++ o.text ++ after) = .ok o := by
  refine ⟨fun text => ⟨_, Text.trims_trim text.toList⟩, fun text middle h => ?_, ?_⟩
  · exact ⟨fun o => ofText_eq_ok_iff h, fun rest => ofText_eq_error_iff h⟩
  · exact fun o before after hbefore hafter => ofText_text_between o hbefore hafter

/-- The least integer between blanks of several kinds, a numeral with a plus sign, and
the one after the greatest, which is given back. -/
theorem ofText_exact_extremes :
    ofText "\t\u00a0-9223372036854775808\u3000\n" = .ok (.int Int64.minValue) ∧
      ofText " +7\r\n" = .ok (.int 7) ∧
      ofText " 9223372036854775808" = .error "9223372036854775808" := by
  obtain ⟨-, hread, hback⟩ := ofText_exact
  have hblank : ∀ c ∈ "\t\u00a0".toList, Text.isBlank c = true := List.all_eq_true.1 rfl
  have hblank' : ∀ c ∈ "\u3000\n".toList, Text.isBlank c = true := List.all_eq_true.1 rfl
  have hseven : Text.Trims " +7\r\n".toList "+7".toList := Text.trims_trim _
  have hbeyond : Text.Trims " 9223372036854775808".toList "9223372036854775808".toList := by
    have htrim : Text.trim " 9223372036854775808".toList = "9223372036854775808".toList := by
      decide +kernel
    exact htrim ▸ Text.trims_trim _
  have hnone : Number.int64? "9223372036854775808".toList = none := by decide +kernel
  have hleast : "\t\u00a0" ++ (int Int64.minValue).text ++ "\u3000\n" =
      "\t\u00a0-9223372036854775808\u3000\n" := by
    decide +kernel
  refine ⟨hleast ▸ hback (.int Int64.minValue) _ _ hblank hblank',
    ((hread _ _ hseven).1 _).2 (.int (.plus (.mk (.single rfl)))),
    ((hread _ _ hbeyond).2 _).2 ⟨?_, rfl⟩⟩
  rintro o (_ | _ | hint)
  exact absurd (Number.int64?_eq_some_iff.2 hint) (by rw [hnone]; nofun)

end Observation

end TwinScheme
