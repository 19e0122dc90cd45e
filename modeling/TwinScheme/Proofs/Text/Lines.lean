import TwinScheme.Proofs.Reader.Tokens
import TwinScheme.Text.Lines

/-!
# What the lines of a text are

A text is cut at its line feeds, and the pieces are then looked at once more for the
return before a feed and for the piece after the last one. What comes of it is said
here by how lines end, one line after the other, and `lines` gives these lines and
no others.
-/

namespace TwinScheme.Text

/-- The lines of a text, each with its ending: a line feed, or a carriage return and
a line feed, or for the last one the end of the text. -/
inductive Lines : List Char → List (List Char) → Prop
  | nil : Lines [] []
  | last {line} : line ≠ [] → '\n' ∉ line → Lines line [line]
  | feed {line cs rest} : '\n' ∉ line → line.getLast? ≠ some '\r' → Lines cs rest →
      Lines (line ++ '\n' :: cs) (line :: rest)
  | returnFeed {line cs rest} : '\n' ∉ line → Lines cs rest →
      Lines (line ++ '\r' :: '\n' :: cs) (line :: rest)

theorem dropReturn_concat (line : List Char) : dropReturn (line ++ ['\r']) = line := by
  rw [dropReturn, List.getLast?_concat, if_pos rfl, List.dropLast_concat]

theorem dropReturn_of_ne {line : List Char} (h : line.getLast? ≠ some '\r') :
    dropReturn line = line :=
  if_neg h

theorem dropReturn_cases (line : List Char) :
    dropReturn line = line ∨ line = dropReturn line ++ ['\r'] := by
  unfold dropReturn
  split
  · next hlast =>
    obtain ⟨front, rfl⟩ := List.getLast?_eq_some_iff.1 hlast
    rw [List.dropLast_concat]
    exact .inr rfl
  · exact .inl rfl

/-- What a return at the end of a line does not change, is not changed by the loss
of one. -/
theorem apply_dropReturn {α : Type} {f : List Char → α} (h : ∀ cs, f (cs ++ ['\r']) = f cs)
    (line : List Char) : f (dropReturn line) = f line := by
  rcases dropReturn_cases line with hsame | hreturn
  · rw [hsame]
  · exact (h (dropReturn line)).symm.trans (congrArg f hreturn.symm)

theorem split_feed_of_not_mem {cs : List Char} (h : '\n' ∉ cs) : split (· == '\n') cs = [cs] := by
  refine split_of_not_separates fun c hc => beq_eq_false_iff_ne.2 ?_
  rintro rfl
  exact h hc

theorem lines_of_not_mem {cs : List Char} (h : '\n' ∉ cs) :
    lines cs = if cs.isEmpty then [] else [cs] := by
  rw [lines, split_feed_of_not_mem h, endLines]

/-- A line feed ends a line. -/
theorem lines_append_feed {line : List Char} (h : '\n' ∉ line) (cs : List Char) :
    lines (line ++ '\n' :: cs) = dropReturn line :: lines cs := by
  have hsplit : split (· == '\n') (line ++ '\n' :: cs) =
      split (· == '\n') line ++ split (· == '\n') cs := split_append_cons (by decide) line cs
  rw [lines, hsplit, split_feed_of_not_mem h, List.singleton_append, lines]
  obtain ⟨piece, pieces, hpieces⟩ := List.exists_cons_of_ne_nil (split_ne_nil (· == '\n') cs)
  rw [hpieces, endLines]
  exact List.cons_ne_nil piece pieces

theorem lines_eq {cs : List Char} {texts : List (List Char)} (h : Lines cs texts) :
    lines cs = texts := by
  induction h with
  | nil => rfl
  | @last line hne hline =>
      rw [lines_of_not_mem hline, List.isEmpty_eq_false_iff.2 hne]
      rfl
  | @feed line cs rest hline hlast _ ih =>
      rw [lines_append_feed hline, dropReturn_of_ne hlast, ih]
  | @returnFeed line cs rest hline _ ih =>
      have hreturn : '\n' ∉ line ++ ['\r'] :=
        List.not_mem_append hline (by decide)
      rw [← List.singleton_append, ← List.append_assoc, lines_append_feed hreturn,
        dropReturn_concat, ih]

theorem lines_lines (cs : List Char) : Lines cs (lines cs) := by
  by_cases hfeed : '\n' ∈ cs
  · obtain ⟨line, rest, hcs, hline⟩ := List.eq_append_cons_of_mem hfeed
    have hshorter : rest.length < cs.length := by
      rw [hcs, List.length_append, List.length_cons]
      omega
    have hrest := lines_lines rest
    rw [hcs, lines_append_feed hline]
    by_cases hlast : line.getLast? = some '\r'
    · obtain ⟨front, rfl⟩ := List.getLast?_eq_some_iff.1 hlast
      rw [dropReturn_concat, List.append_assoc, List.singleton_append]
      exact .returnFeed (fun h => hline (List.mem_append_left _ h)) hrest
    · rw [dropReturn_of_ne hlast]
      exact .feed hline hlast hrest
  · rw [lines_of_not_mem hfeed]
    cases cs with
    | nil => exact .nil
    | cons c cs => exact .last (List.cons_ne_nil c cs) hfeed
termination_by cs.length

/-- Every text has lines, and no others. -/
theorem lines_iff {cs : List Char} {texts : List (List Char)} :
    Lines cs texts ↔ lines cs = texts :=
  ⟨lines_eq, fun h => h ▸ lines_lines cs⟩

end TwinScheme.Text
