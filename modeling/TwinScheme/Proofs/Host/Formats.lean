import TwinScheme.Host.Format
import TwinScheme.Proofs.Reader.Grammar
import TwinScheme.Proofs.Text.Bytes

/-!
# Printing formats

A format is printed piece by piece, and the fuel of the loop says nothing: every
piece leaves an end of the text before it, so as much fuel as there are characters is
enough, and more makes no difference. A text in which nothing is introduced is its
own output, whatever characters it has, and a directive never prints less than its
width.
-/

namespace TwinScheme

namespace Directive

open List (IsSuffix)

theorem count_suffix (cs : List Char) : (count cs).2 <:+ cs := by
  rw [count.eq_def]
  split
  · exact List.suffix_cons _ _
  · exact List.dropWhile_suffix _

theorem precision?_suffix (cs : List Char) : (precision? cs).2 <:+ cs := by
  rw [precision?.eq_def]
  split
  · exact (count_suffix _).trans (List.suffix_cons _ _)
  · exact List.suffix_refl _

theorem read_suffix (cs : List Char) : (read cs).2 <:+ cs := by
  let isFlag : Char → Bool := "-+ #0'I".toList.contains
  have hcount := (count_suffix (cs.dropWhile isFlag)).trans (List.dropWhile_suffix isFlag)
  have hprecision := (precision?_suffix (count (cs.dropWhile isFlag)).2).trans hcount
  rw [read]
  dsimp only
  split
  · exact List.nil_suffix
  · next letter rest h =>
    have hletter := (List.dropWhile_suffix "lLhjtz".toList.contains).trans hprecision
    rw [h] at hletter
    exact (List.suffix_cons letter rest).trans hletter

/-- A directive fills its field. -/
theorem length_text (d : Directive) :
    d.text.length = max d.width (d.sign.length + (d.zero.1.length + d.zero.2.length)) := by
  rw [text]
  dsimp only
  split
  · simp
    omega
  · split <;> simp <;> omega

end Directive

namespace Format

theorem number_suffix (digit? : Char → Option Nat) (base most : Nat) (cs : List Char) :
    (number digit? base most cs).2.2 <:+ cs := by
  induction most generalizing cs with
  | zero => exact List.suffix_refl _
  | succ most ih =>
      cases cs with
      | nil => exact List.suffix_refl _
      | cons c cs =>
          rw [number]
          split
          · exact (ih cs).trans (List.suffix_cons _ _)
          · exact List.suffix_refl _

theorem readCodePoint_suffix (letter : Char) (digits : Nat) (cs : List Char) :
    (readCodePoint letter digits cs).2 <:+ cs :=
  number_suffix hexDigit? 16 digits cs

theorem readEscape_suffix (cs : List Char) : (readEscape cs).2 <:+ cs := by
  cases cs with
  | nil => exact List.suffix_refl _
  | cons c rest =>
      have hrest : rest <:+ c :: rest := List.suffix_cons c rest
      rw [readEscape.eq_def]
      dsimp only
      split
      case h_12 => exact (number_suffix _ _ _ _).trans hrest
      case h_13 | h_14 => exact (readCodePoint_suffix _ _ _).trans hrest
      case h_15 =>
        split
        · exact hrest
        · exact number_suffix _ _ _ _
      all_goals exact hrest

theorem readDirective_suffix (cs : List Char) : (readDirective cs).2 <:+ cs := by
  rw [readDirective.eq_def]
  split
  case h_4 => 
    have hread := Directive.read_suffix cs
    split
    · next h => rw [h] at hread; exact hread
    · next h => rw [h] at hread; exact hread
  all_goals exact List.suffix_cons _ _

/-- A piece is taken from the start of the text, its first character at least. -/
theorem piece_suffix (c : Char) (cs : List Char) :
    (if c = '\\' then readEscape cs else if c = '%' then readDirective cs
      else (.text [c], cs)).2 <:+ cs := by
  split
  · exact readEscape_suffix cs
  · split
    · exact readDirective_suffix cs
    · exact List.suffix_refl cs

theorem printFrom_succ {fuel : Nat} {cs : List Char} (h : cs.length ≤ fuel) (done : List Char) :
    printFrom (fuel + 1) done cs = printFrom fuel done cs := by
  induction fuel generalizing cs done with
  | zero =>
      rw [List.length_eq_zero_iff.1 (Nat.le_zero.1 h)]
      rfl
  | succ fuel ih =>
      cases cs with
      | nil => rfl
      | cons c cs =>
          have hpiece := piece_suffix c cs
          rw [printFrom, printFrom]
          generalize (if c = '\\' then readEscape cs else if c = '%' then readDirective cs
            else (.text [c], cs)) = read at hpiece
          obtain ⟨piece, rest⟩ := read
          cases piece with
          | text text => exact ih (hpiece.length_le.trans (Nat.le_of_succ_le_succ h)) _
          | stop | fault => rfl

/-- What is printed does not depend on the fuel, if there is enough of it. -/
theorem printFrom_eq {fuel : Nat} {cs : List Char} (h : cs.length ≤ fuel) (done : List Char) :
    printFrom fuel done cs = printFrom cs.length done cs := by
  induction h with
  | refl => rfl
  | step h ih => rw [printFrom_succ h, ih]

theorem printFrom_plain {cs : List Char} (h : ∀ c ∈ cs, c ≠ '\\' ∧ c ≠ '%') (done : List Char) :
    printFrom cs.length done cs = .ok (done ++ cs) := by
  induction cs generalizing done with
  | nil => rw [printFrom.eq_def]; simp
  | cons c cs ih =>
      obtain ⟨⟨hescape, hdirective⟩, hcs⟩ := List.forall_mem_cons.1 h
      rw [List.length_cons, printFrom, if_neg hescape, if_neg hdirective]
      dsimp only
      rw [ih hcs, List.append_assoc, List.singleton_append]

theorem toNat_ofByte (b : UInt8) : (Char.ofNat b.toNat).toNat = b.toNat := by
  rw [Char.toNat_ofNat, if_pos (.inl (Nat.lt_trans b.toNat_lt (by decide)))]

theorem toBytes_ofText (text : String) : toBytes (ofText text) = Text.encode text := by
  rw [toBytes, ofText, List.map_map]
  refine List.map_id'' (fun b => ?_) _
  rw [Function.comp_apply, toNat_ofByte, UInt8.ofNat_toNat]

/-- A text in which nothing is introduced prints itself. -/
theorem print_of_plain {text : String} (h : ∀ c ∈ text.toList, c ≠ '\\' ∧ c ≠ '%') :
    print text = .ok (Text.encode text) := by
  have hplain : ∀ c ∈ ofText text, c ≠ '\\' ∧ c ≠ '%' := by
    intro c hc
    obtain ⟨b, hb, rfl⟩ := List.mem_map.1 hc
    rw [Text.encode_eq] at hb
    obtain ⟨c, hc, hb⟩ := List.mem_flatMap.1 hb
    rcases Text.mem_encodeChar hb with heq | hhigh
    · rw [heq]
      exact h c hc
    · rw [← toNat_ofByte] at hhigh
      constructor <;> rintro heq <;> rw [heq] at hhigh <;> exact absurd hhigh (by decide)
  rw [print, printFrom_plain hplain, Except.map, List.nil_append, toBytes_ofText]

end Format

end TwinScheme
