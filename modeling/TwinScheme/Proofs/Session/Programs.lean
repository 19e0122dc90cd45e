import Mathlib.Data.List.Infix
import Mathlib.Data.List.TakeWhile
import TwinScheme.Program
import TwinScheme.Proofs.Reader.Extension
import TwinScheme.Proofs.Session.Lines
import TwinScheme.Proofs.Text.Lines
import TwinScheme.Proofs.Text.Trimming

/-!
# What programs come to, and one program after another

A run evaluates lines in order, and it ends in one of three ways: with the error of
the first line that fails, with the value of the last line, or with nothing if there
is no line. `Outcome` says so with the answers of a session and without the loop,
and `Evaluated` says which lines of the text are meant.

Two programs with a line feed between them run as the first and then the second.
The seam is where care is needed. The last line of the first program had no ending
and has one now, so a carriage return that belonged to it is gone; and if it was
empty, a line has come up that was not there before.

Neither matters, because what a line does depends on its tokens only, and whether
it is evaluated does not depend on a blank at its end. So a program is as good as
the tokens of its pieces between line feeds, directives and blank pieces left out,
and of these two texts with a line feed between them have simply both. The run over
the lines is then cut in two, with the value of the last line carried along.
-/

namespace TwinScheme

namespace Text

theorem startsWith_concat {start : List Char} {c : Char} (hc : c ∉ start) (cs : List Char) :
    startsWith (cs ++ [c]) start = startsWith cs start := by
  rw [Bool.eq_iff_iff, startsWith, startsWith, List.isPrefixOf_iff_prefix,
    List.isPrefixOf_iff_prefix, List.prefix_concat_iff, or_iff_right]
  rintro rfl
  exact hc List.mem_concat_self

end Text

namespace Program

/-! ## The lines that are evaluated -/

/-- A line that is evaluated: it is neither a comment nor meant for another
implementation, and there is something to be seen in it. -/
structure Evaluated (line : List Char) : Prop where
  hash : ¬"#".toList <+: line
  semicolon : ¬";".toList <+: line
  require : ¬"(require".toList <+: line
  visible : ∃ c ∈ line, Text.isBlank c = false

theorem isEvaluated_iff {line : List Char} : isEvaluated line = true ↔ Evaluated line := by
  have hstart : ∀ start, Text.startsWith line start = false ↔ ¬start <+: line := by
    intro start
    rw [← Bool.not_eq_true, Text.startsWith, List.isPrefixOf_iff_prefix]
  have hvisible : (Text.trim line).isEmpty = false ↔ ∃ c ∈ line, Text.isBlank c = false := by
    rw [List.isEmpty_eq_false_iff, Ne, Text.trim_eq_nil_iff]
    simp
  rw [isEvaluated, isDirective, Bool.and_eq_true, Bool.not_eq_true', Bool.not_eq_true',
    Bool.or_eq_false_iff, Bool.or_eq_false_iff, hstart, hstart, hstart, hvisible]
  exact ⟨fun ⟨⟨⟨hhash, hsemicolon⟩, hrequire⟩, hvisible⟩ =>
    ⟨hhash, hsemicolon, hrequire, hvisible⟩, fun h =>
    ⟨⟨⟨h.hash, h.semicolon⟩, h.require⟩, h.visible⟩⟩

instance (line : List Char) : Decidable (Evaluated line) :=
  decidable_of_iff (isEvaluated line = true) isEvaluated_iff

theorem lines_eq {source : String} {texts : List (List Char)}
    (h : Text.Lines source.toList texts) :
    lines source = (texts.filter (Evaluated ·)).map String.ofList := by
  rw [lines, Text.lines_iff.1 h]
  refine congrArg (List.map String.ofList) (List.filter_congr fun line _ => ?_)
  rw [Bool.eq_iff_iff, isEvaluated_iff, decide_eq_true_eq]

/-! ## Returns at the ends of lines -/

theorem isDirective_concat_return (line : List Char) :
    isDirective (line ++ ['\r']) = isDirective line := by
  rw [isDirective, Text.startsWith_concat (by decide), Text.startsWith_concat (by decide),
    Text.startsWith_concat (by decide), isDirective]

theorem isEvaluated_concat_return (line : List Char) :
    isEvaluated (line ++ ['\r']) = isEvaluated line := by
  have htrim : Text.trim (line ++ ['\r']) = Text.trim line := Text.trim_concat rfl line
  rw [isEvaluated, isDirective_concat_return, htrim, isEvaluated]

theorem scan_concat_return (line : List Char) :
    Token.scan [] (line ++ ['\r']) = Token.scan [] line := by
  rw [Token.scan_append_cons rfl]
  exact List.append_nil _

/-! ## A program as rows of tokens -/

/-- The tokens of the pieces of a text between line feeds, of those that are
evaluated. -/
def rows (cs : List Char) : List (List Token) :=
  ((Text.split (· == '\n') cs).filter isEvaluated).map (Token.scan [])

theorem rows_append (as bs : List Char) : rows (as ++ '\n' :: bs) = rows as ++ rows bs := by
  have hsplit : Text.split (· == '\n') (as ++ '\n' :: bs) =
      Text.split (· == '\n') as ++ Text.split (· == '\n') bs :=
    Text.split_append_cons (by decide) as bs
  rw [rows, hsplit, List.filter_append, List.map_append, rows, rows]

theorem map_scan_endLines (pieces : List (List Char)) :
    ((Text.endLines pieces).filter isEvaluated).map (Token.scan []) =
      (pieces.filter isEvaluated).map (Token.scan []) := by
  fun_induction Text.endLines pieces with
  | case1 => rfl
  -- An empty last piece is no line, and as a piece it is left out for being blank.
  | case2 last hempty =>
      rw [List.isEmpty_iff.1 hempty]
      rfl
  | case3 last hsome => rfl
  | case4 line rest hrest ih =>
      rw [List.filter_cons, List.filter_cons, Text.apply_dropReturn isEvaluated_concat_return]
      split
      · rw [List.map_cons, List.map_cons, Text.apply_dropReturn scan_concat_return, ih]
      · exact ih

theorem map_ofText_lines (source : String) :
    (lines source).map Token.ofText = rows source.toList := by
  rw [lines, Text.lines, List.map_map, rows, ← map_scan_endLines]
  refine List.map_congr_left fun line _ => ?_
  rw [Function.comp_apply, Token.ofText, String.toList_ofList]

/-- The lines of two programs have the tokens of those of the one and then those
of the other. -/
theorem map_ofText_lines_append (a b : String) :
    (lines (a ++ "\n" ++ b)).map Token.ofText = (lines a ++ lines b).map Token.ofText := by
  have hfeed : (a ++ "\n" ++ b).toList = a.toList ++ '\n' :: b.toList := by
    simp
  rw [map_ofText_lines, hfeed, rows_append, List.map_append, map_ofText_lines, map_ofText_lines]

/-! ## Runs -/

variable {s : Session} {last : Option Value}

theorem evalLine_congr {line line' : String} (h : Token.ofText line = Token.ofText line') :
    s.evalLine line = s.evalLine line' := by
  rw [Session.evalLine, Datum.parse, h, Session.evalLine, Datum.parse]

theorem runLines_congr {ls ls' : List String} (h : ls.map Token.ofText = ls'.map Token.ofText) :
    runLines last s ls = runLines last s ls' := by
  induction ls generalizing s last ls' with
  | nil =>
      rw [List.map_nil, eq_comm, List.map_eq_nil_iff] at h
      rw [h]
  | cons line rest ih =>
      obtain ⟨line', rest', rfl, hline, hrest⟩ := List.map_eq_cons_iff.1 h.symm
      rw [runLines, runLines, evalLine_congr hline.symm]
      split
      · rfl
      · exact ih hrest.symm

theorem runLines_append (ls ls' : List String) :
    runLines last s (ls ++ ls') =
      match runLines last s ls with
      | (.error e, s) => (.error e, s)
      | (.ok v, s) => runLines v s ls' := by
  induction ls generalizing s last with
  | nil => rfl
  | cons line rest ih =>
      rw [List.cons_append, runLines, runLines]
      split
      · rfl
      · exact ih

/-- The value from before a run is that of the run if there is nothing to run, and
plays no part otherwise. -/
theorem runLines_eq (last : Option Value) (s : Session) (ls : List String) :
    runLines last s ls =
      match runLines none s ls with
      | (.error e, s) => (.error e, s)
      | (.ok v, s) => (.ok (if ls = [] then last else v), s) := by
  cases ls with
  | nil => rfl
  | cons line rest =>
      simp only [List.cons_ne_nil, if_false, runLines]
      rcases s.evalLine line with ⟨e | v, t⟩
      · rfl
      · dsimp only
        rcases runLines (some v) t rest with ⟨e | w, u⟩ <;> rfl

/-! ## What a run comes to -/

/-- No line fails. -/
def Succeeds (s : Session) (ls : List String) : Prop :=
  ∀ reply ∈ s.replies ls, ∃ v, reply = .ok v

/-- What lines come to that are given to a session one after another, and the session
that they leave: nothing without lines, or the value of the last line, or the error of
the first that fails. -/
inductive Outcome (s : Session) : List String → Except Error (Option Value) × Session → Prop
  | nothing : Outcome s [] (.ok none, s)
  | value {front line v t} : Succeeds s front → (s.after front).evalLine line = (.ok v, t) →
      Outcome s (front ++ [line]) (.ok (some v), t)
  | failure {before line after e t} : Succeeds s before →
      (s.after before).evalLine line = (.error e, t) →
      Outcome s (before ++ line :: after) (.error e, t)

theorem succeeds_cons {line : String} {v : Value} {t : Session} {ls : List String}
    (hline : s.evalLine line = (.ok v, t)) (h : Succeeds t ls) : Succeeds s (line :: ls) := by
  intro reply hreply
  rw [Session.replies, hline, List.mem_cons] at hreply
  rcases hreply with rfl | hreply
  · exact ⟨v, rfl⟩
  · exact h reply hreply

/-- What lines come to is what they come to after one that succeeds. -/
theorem Outcome.cons {line : String} {v : Value} {t : Session} {ls : List String}
    {r : Except Error (Option Value) × Session} (hline : s.evalLine line = (.ok v, t))
    (hls : ls ≠ []) (h : Outcome t ls r) : Outcome s (line :: ls) r := by
  have hafter : ∀ front, s.after (line :: front) = t.after front := by
    intro front
    rw [Session.after_cons, hline]
  cases h with
  | nothing => exact absurd rfl hls
  | value hfront hlast => exact .value (succeeds_cons hline hfront) (by rw [hafter, hlast])
  | failure hbefore hfails => exact .failure (succeeds_cons hline hbefore) (by rw [hafter, hfails])

theorem outcome_runLines (s : Session) (ls : List String) :
    Outcome s ls (runLines none s ls) := by
  have hnil : ∀ s, Succeeds s [] := fun s => List.forall_mem_nil _
  induction ls generalizing s with
  | nil => exact .nothing
  | cons line rest ih =>
      rw [runLines]
      rcases hline : s.evalLine line with ⟨e | v, t⟩
      · exact @Outcome.failure s [] line rest e t (hnil s) hline
      · cases rest with
        | nil => exact @Outcome.value s [] line v t (hnil s) hline
        -- with a line still to come, it makes no difference which value was there before
        | cons next rest => exact (ih t).cons hline (List.cons_ne_nil next rest)

/-- A program that goes on after a line feed is the one before it and then, unless
it failed, the one after it. The value is that of the last line of the two. -/
theorem run_append_eq (s : Session) (a b : String) :
    run s (a ++ "\n" ++ b) =
      match run s a with
      | (.error e, t) => (.error e, t)
      | (.ok v, t) =>
        match run t b with
        | (.error e, u) => (.error e, u)
        | (.ok w, u) =>
          (.ok (if lines b ≠ [] then w else if lines a ≠ [] then v else none), u) := by
  rw [run, runLines_congr (map_ofText_lines_append a b), runLines_append, run]
  rcases ha : runLines none s (lines a) with ⟨e | v, t⟩
  · rfl
  · dsimp only
    rw [runLines_eq v t (lines b), run]
    rcases runLines none t (lines b) with ⟨e | w, u⟩
    · rfl
    · have hnone : lines a = [] → v = none := by
        intro hnil
        rw [hnil, runLines] at ha
        cases ha
        rfl
      by_cases hb : lines b = []
      · by_cases ha : lines a = []
        · simp [ha, hb, hnone ha]
        · simp [ha, hb]
      · simp [hb]

/-- Every program has lines, and no others than its text says. Those that are
evaluated are given to the session in order, and the run is what they come to. And a
program that goes on after a line feed is the one before it and then, unless it
failed, the one after it, with the value of the last line of the two. -/
theorem run_append :
    (∀ source : String, ∃! texts, Text.Lines source.toList texts) ∧
    (∀ (s : Session) (source : String) (texts : List (List Char)),
      Text.Lines source.toList texts →
        lines source = (texts.filter (Evaluated ·)).map String.ofList ∧
          Outcome s (lines source) (run s source)) ∧
    ∀ (s : Session) (a b : String),
      run s (a ++ "\n" ++ b) =
        match run s a with
        | (.error e, t) => (.error e, t)
        | (.ok v, t) =>
          match run t b with
          | (.error e, u) => (.error e, u)
          | (.ok w, u) =>
            (.ok (if lines b ≠ [] then w else if lines a ≠ [] then v else none), u) := by
  refine ⟨fun source => ?_, fun s source texts htexts => ?_, run_append_eq⟩
  · exact ⟨Text.lines source.toList, Text.lines_lines _, fun _ h => (Text.lines_iff.1 h).symm⟩
  · exact ⟨lines_eq htexts, outcome_runLines s (lines source)⟩

/-- A comment after a program leaves its value, and a line that fails ends the run. -/
theorem run_append_define :
    (Text.Lines "(define x #t)\r\nx".toList ["(define x #t)".toList, "x".toList] ∧
      Outcome (.start .textual {}) ["(define x #t)", "x"] (.ok (some (.bool true)), .withX 1)) ∧
    run (.start .textual {}) ("(define x #t)\r\nx" ++ "\n" ++ "; done\n") =
      (.ok (some (.bool true)), .withX 1) ∧
    run (.start .textual {}) ("(define x #t)\r\nx" ++ "\n" ++ "(set! y x)\nx") =
      (.error (.unbound "y"), .withX 2) := by
  have htexts : Text.Lines "(define x #t)\r\nx".toList ["(define x #t)".toList, "x".toList] :=
    Text.lines_iff.2 rfl
  have hlines : lines "(define x #t)\r\nx" = ["(define x #t)", "x"] := rfl
  have hcomment : lines "; done\n" = [] := rfl
  have hset : lines "(set! y x)\nx" = ["(set! y x)", "x"] := rfl
  have hfirst : run (.start .textual {}) "(define x #t)\r\nx" =
      (.ok (some (.bool true)), .withX 1) := by
    rw [run, hlines, runLines, Session.evalLine_define]
    dsimp only
    rw [runLines, Session.evalLine_x]
    rfl
  refine ⟨⟨htexts, ?_⟩, ?_, ?_⟩
  · obtain ⟨-, houtcome⟩ := run_append.2.1 (.start .textual {}) _ _ htexts
    rwa [hfirst, hlines] at houtcome
  · rw [run_append.2.2, hfirst]
    dsimp only
    rw [run, hcomment, hlines]
    rfl
  · rw [run_append.2.2, hfirst]
    dsimp only
    rw [run, hset, runLines, Session.evalLine_set]

end Program

end TwinScheme
