import TwinScheme.Proofs.Reader.Numerals

/-!
# Tokens are the words of the padded text

Cutting a text into tokens is described without any scanning: put a blank on
either side of every parenthesis and take the words. The scanner does in one
pass, carrying the run it is in, what this does in three, and the two agree on
every text, balanced or not.

The run is what makes the induction go through. A scan that carries a run is
compared with the words of the run followed by the padded rest, and a
parenthesis, a blank or the end of the text completes the run on both sides.
-/

namespace TwinScheme

namespace Text

/-- A text with a blank put on either side of every occurrence of a character. -/
def pad (mark : Char) (cs : List Char) : List Char :=
  cs.flatMap fun c => if c = mark then [' ', c, ' '] else [c]

/-! ## Words -/

theorem split_cons_of_not {separates : Char → Bool} {c : Char} (hc : separates c = false)
    {cs piece : List Char} {pieces : List (List Char)} (h : split separates cs = piece :: pieces) :
    split separates (c :: cs) = (c :: piece) :: pieces := by
  rw [split, hc, h]
  rfl

/-- A separator ends the pieces before it. -/
theorem split_append_cons {separates : Char → Bool} {c : Char} (hc : separates c = true)
    (as bs : List Char) :
    split separates (as ++ c :: bs) = split separates as ++ split separates bs := by
  induction as with
  | nil =>
      rw [List.nil_append, split.eq_2, if_pos hc]
      rfl
  | cons a as ih =>
      obtain ⟨piece, pieces, hpieces⟩ :=
        List.exists_cons_of_ne_nil (split_ne_nil separates as)
      rw [hpieces] at ih
      cases ha : separates a with
      | true => rw [List.cons_append, split, split, if_pos ha, if_pos ha, ih, hpieces]; rfl
      | false => rw [List.cons_append, split_cons_of_not ha ih, split_cons_of_not ha hpieces]; rfl

/-- A blank ends the words before it. -/
theorem words_append_cons {c : Char} (hc : isBlank c = true) (as bs : List Char) :
    words (as ++ c :: bs) = words as ++ words bs := by
  rw [words, split_append_cons hc, List.filter_append]
  rfl

/-- A text without separators is a single piece. -/
theorem split_of_not_separates {separates : Char → Bool} {cs : List Char}
    (h : ∀ c ∈ cs, separates c = false) : split separates cs = [cs] := by
  induction cs with
  | nil => rfl
  | cons c cs ih =>
      obtain ⟨hc, hcs⟩ := List.forall_mem_cons.1 h
      exact split_cons_of_not hc (ih hcs)

/-- A run without blanks is a single word, if it is anything. -/
theorem words_of_not_blank {cs : List Char} (h : ∀ c ∈ cs, isBlank c = false) :
    words cs = if cs.isEmpty then [] else [cs] := by
  rw [words, split_of_not_separates h]
  cases cs <;> rfl

/-- The words of a text are the text without its blanks. -/
theorem flatten_words (cs : List Char) : (words cs).flatten = cs.filter (!isBlank ·) := by
  rw [words, List.flatten_filter_not_isEmpty]
  induction cs with
  | nil => rfl
  | cons c cs ih =>
      cases hc : isBlank c with
      | true =>
          rw [split, if_pos hc, List.flatten_cons, List.nil_append, ih,
            List.filter_cons_of_neg (by simp [hc])]
      | false =>
          obtain ⟨piece, pieces, hpieces⟩ := List.exists_cons_of_ne_nil (split_ne_nil isBlank cs)
          rw [hpieces] at ih
          rw [split_cons_of_not hc hpieces, List.filter_cons_of_pos (by simp [hc]), ← ih]
          rfl

/-- Padding adds nothing but blanks. -/
theorem filter_pad (mark : Char) (cs : List Char) :
    (pad mark cs).filter (!isBlank ·) = cs.filter (!isBlank ·) := by
  have hspace : (!isBlank ' ') = false := rfl
  induction cs with
  | nil => rfl
  | cons c cs ih =>
      rw [pad] at ih ⊢
      rw [List.flatMap_cons, List.filter_append, ih, List.filter_cons]
      split <;> cases hc : isBlank c <;> simp [hc, hspace]

end Text

namespace Token

/-- The token that a word is. -/
def ofWord : List Char → Token
  | ['('] => opening
  | [')'] => closing
  | word => atom (String.ofList word)

/-- A text with a blank on either side of every parenthesis. -/
def spaced (cs : List Char) : List Char :=
  Text.pad ')' (Text.pad '(' cs)

theorem text_ofWord (word : List Char) : (ofWord word).text = String.ofList word := by
  unfold ofWord
  split <;> rfl

theorem spaced_opening (cs : List Char) : spaced ('(' :: cs) = ' ' :: '(' :: ' ' :: spaced cs :=
  rfl

theorem spaced_closing (cs : List Char) : spaced (')' :: cs) = ' ' :: ')' :: ' ' :: spaced cs :=
  rfl

theorem spaced_cons {c : Char} (hopening : c ≠ '(') (hclosing : c ≠ ')') (cs : List Char) :
    spaced (c :: cs) = c :: spaced cs := by
  simp only [spaced, Text.pad, List.flatMap_cons, if_neg hopening, List.singleton_append,
    if_neg hclosing]

/-- What completes a run is its one word. -/
theorem complete_eq_words {run : List Char} (hrun : ∀ c ∈ run, isPlain c = true) :
    complete run = (Text.words run.reverse).map ofWord := by
  have hblank : ∀ c ∈ run.reverse, Text.isBlank c = false := by
    intro c hc
    have hplain := hrun c (List.mem_reverse.1 hc)
    simp only [isPlain, Bool.not_eq_true', Bool.or_eq_false_iff] at hplain
    exact hplain.1.1
  have hparen : ∀ c, c = '(' ∨ c = ')' → run.reverse ≠ [c] := by
    rintro c hc hrev
    have hmem : c ∈ run := List.mem_reverse.1 (hrev ▸ List.mem_singleton.2 rfl)
    rcases hc with rfl | rfl <;> exact absurd (hrun _ hmem) (by decide)
  rw [complete, Text.words_of_not_blank hblank, List.isEmpty_reverse]
  split
  · rfl
  · rw [List.map_singleton, ofWord.eq_3 _ (hparen _ (.inl rfl)) (hparen _ (.inr rfl))]

/-- A scan that carries a run finds the words of the run and the padded rest. -/
theorem scan_eq_words {run : List Char} (hrun : ∀ c ∈ run, isPlain c = true) (cs : List Char) :
    scan run cs = (Text.words (run.reverse ++ spaced cs)).map ofWord := by
  have hspace : Text.isBlank ' ' = true := rfl
  have hnone : ∀ c ∈ ([] : List Char), isPlain c = true := List.forall_mem_nil _
  induction cs generalizing run with
  | nil => rw [scan, complete_eq_words hrun, spaced, Text.pad, Text.pad]; simp
  | cons c cs ih =>
      have hrest := ih hnone
      rw [List.reverse_nil, List.nil_append] at hrest
      -- A parenthesis is a word of its own, since there is a blank on either side of it.
      have hmark : ∀ mark token, ofWord [mark] = token → Text.isBlank mark = false →
          complete run ++ token :: scan [] cs =
            (Text.words (run.reverse ++ ' ' :: mark :: ' ' :: spaced cs)).map ofWord := by
        intro mark token htoken hblank
        rw [Text.words_append_cons hspace, List.map_append, ← complete_eq_words hrun, hrest]
        have hword : Text.words (mark :: ' ' :: spaced cs) = [mark] :: Text.words (spaced cs) := by
          refine (Text.words_append_cons hspace [mark] _).trans ?_
          rw [Text.words_of_not_blank (by simpa using hblank)]
          rfl
        rw [hword, List.map_cons, htoken]
      rw [scan]
      split
      · next hopening => rw [hopening, spaced_opening]; exact hmark '(' opening rfl rfl
      · next hopening =>
        split
        · next hclosing => rw [hclosing, spaced_closing]; exact hmark ')' closing rfl rfl
        · next hclosing =>
          rw [spaced_cons hopening hclosing]
          split
          · next hblank =>
            rw [Text.words_append_cons hblank, List.map_append, ← complete_eq_words hrun, hrest]
          · next hblank =>
            have hplain : isPlain c = true := by simp [isPlain, hopening, hclosing, hblank]
            rw [ih (List.forall_mem_cons.2 ⟨hplain, hrun⟩), List.reverse_cons, List.append_assoc,
              List.singleton_append]

/-- The tokens of a text are the words of the text padded at its parentheses. So
nothing but blanks is lost, nothing is doubled or moved, and no token is
empty. -/
theorem ofText_eq_words (text : String) :
    ofText text = (Text.words (spaced text.toList)).map ofWord ∧
      (ofText text).map Token.text = (Text.words (spaced text.toList)).map String.ofList ∧
      (ofText text).flatMap (·.text.toList) = text.toList.filter (!Text.isBlank ·) ∧
      ∀ t ∈ ofText text, t.text ≠ "" := by
  have hwords : ofText text = (Text.words (spaced text.toList)).map ofWord :=
    scan_eq_words (List.forall_mem_nil _) text.toList
  have htexts : (ofText text).map Token.text =
      (Text.words (spaced text.toList)).map String.ofList := by
    rw [hwords, List.map_map]
    exact List.map_congr_left fun word _ => text_ofWord word
  refine ⟨hwords, htexts, ?_, fun t ht => ?_⟩
  · have hchars : (ofText text).map (·.text.toList) = Text.words (spaced text.toList) := by
      have := congrArg (List.map String.toList) htexts
      simpa [Function.comp_def] using this
    rw [List.flatMap_def, hchars, Text.flatten_words, spaced, Text.filter_pad, Text.filter_pad]
  · have hmem : t.text ∈ (Text.words (spaced text.toList)).map String.ofList :=
      htexts ▸ List.mem_map_of_mem ht
    obtain ⟨word, hword, htext⟩ := List.mem_map.1 hmem
    have hne : word ≠ [] := by
      have := (List.mem_filter.1 hword).2
      simpa using this
    rw [← htext]
    intro hempty
    exact hne (by simpa using congrArg String.toList hempty)

example : ofText " (cond ((> x 1)x" =
    [.opening, .atom "cond", .opening, .opening, .atom ">", .atom "x", .atom "1", .closing,
      .atom "x"] := by decide

end Token

end TwinScheme
