import Mathlib.Data.List.DropRight
import TwinScheme.Text.Blank

/-!
# Texts without the blanks at their ends

Trimming walks a text from either end. What is left is described without any
walking: it stands between blanks, and does not itself start or end with one. There
is one such text in every text, and trimming finds it.
-/

namespace TwinScheme.Text

/-- What is left of a text without the blanks at its two ends. -/
structure Trims (cs middle : List Char) : Prop where
  between : ∃ before after, cs = before ++ middle ++ after ∧
    (∀ c ∈ before, isBlank c = true) ∧ ∀ c ∈ after, isBlank c = true
  head : ∀ c ∈ middle.head?, isBlank c = false
  last : ∀ c ∈ middle.getLast?, isBlank c = false

theorem trim_eq_rdropWhile (cs : List Char) :
    trim cs = (cs.dropWhile isBlank).rdropWhile isBlank := rfl

/-- Trimming leaves nothing of blanks, and of nothing else. -/
theorem trim_eq_nil_iff {cs : List Char} : trim cs = [] ↔ ∀ c ∈ cs, isBlank c = true := by
  rw [← List.dropWhile_eq_nil_iff, trim, List.reverse_eq_nil_iff, List.dropWhile_eq_nil_iff]
  cases h : cs.dropWhile isBlank with
  | nil => simp
  | cons c rest =>
      have hstop := List.head?_dropWhile_not isBlank cs
      rw [h, List.head?_cons] at hstop
      simp [hstop]

theorem trims_trim (cs : List Char) : Trims cs (trim cs) where
  between := by
    refine ⟨cs.takeWhile isBlank, (cs.dropWhile isBlank).rtakeWhile isBlank, ?_, ?_, ?_⟩
    · rw [trim_eq_rdropWhile, List.append_assoc, List.rdropWhile_append_rtakeWhile,
        List.takeWhile_append_dropWhile]
    · exact List.all_eq_true.1 List.all_takeWhile
    · exact fun c hc => List.mem_rtakeWhile_imp hc
  head := by
    intro c hc
    -- what is dropped at the end leaves the first character where it was
    obtain ⟨rest, hrest⟩ : trim cs <+: cs.dropWhile isBlank :=
      List.rdropWhile_prefix isBlank _
    have hhead : (cs.dropWhile isBlank).head? = some c := by
      rw [← hrest, List.head?_append, Option.mem_def.1 hc, Option.some_or]
    have hstop := List.head?_dropWhile_not isBlank cs
    rwa [hhead] at hstop
  last := by
    intro c hc
    obtain ⟨hne, rfl⟩ := List.mem_getLast?_eq_getLast hc
    exact eq_false_of_ne_true (List.rdropWhile_last_not _ _ hne)

/-- A text between two characters that are no blanks is left as it is. -/
theorem trims_enclosed {c d : Char} (hc : isBlank c = false) (hd : isBlank d = false)
    (cs : List Char) : Trims (c :: cs ++ [d]) (c :: cs ++ [d]) where
  between := ⟨[], [], (List.append_nil _).symm, List.forall_mem_nil _, List.forall_mem_nil _⟩
  head e he := Option.some.inj he ▸ hc
  last e he := by
    rw [List.getLast?_concat] at he
    exact Option.some.inj he ▸ hd

theorem Trims.trim_eq {cs middle : List Char} (h : Trims cs middle) : trim cs = middle := by
  obtain ⟨⟨before, after, rfl, hbefore, hafter⟩, hhead, hlast⟩ := h
  cases middle with
  | nil =>
      rw [List.append_nil, trim_eq_nil_iff]
      exact List.forall_mem_append.2 ⟨hbefore, hafter⟩
  | cons c rest =>
      have hstart : ¬isBlank c = true := ne_true_of_eq_false (hhead c rfl)
      have hend : (c :: rest).rdropWhile isBlank = c :: rest := by
        refine List.rdropWhile_eq_self_iff.2 fun hne => ne_true_of_eq_false (hlast _ ?_)
        exact List.getLast?_eq_some_getLast hne
      rw [trim_eq_rdropWhile, List.append_assoc, List.dropWhile_append_of_pos hbefore,
        List.cons_append, List.dropWhile_cons_of_neg hstart, ← List.cons_append,
        List.rdropWhile, List.reverse_append, List.dropWhile_append_of_pos]
      · exact hend
      · exact fun c hc => hafter c (List.mem_reverse.1 hc)

/-- A blank at the end is cut off with the others. -/
theorem trim_concat {c : Char} (hc : isBlank c = true) (cs : List Char) :
    trim (cs ++ [c]) = trim cs := by
  obtain ⟨⟨before, after, hcs, hbefore, hafter⟩, hhead, hlast⟩ := trims_trim cs
  have hbetween : cs ++ [c] = before ++ trim cs ++ (after ++ [c]) := by
    rw [← List.append_assoc, ← hcs]
  have hblanks : ∀ d ∈ after ++ [c], isBlank d = true :=
    List.forall_mem_append.2 ⟨hafter, List.forall_mem_singleton.2 hc⟩
  exact Trims.trim_eq ⟨⟨before, after ++ [c], hbetween, hbefore, hblanks⟩, hhead, hlast⟩

end TwinScheme.Text
