import Mathlib.Logic.Function.Iterate
import TwinScheme.Datum.Reader

/-!
# More input

A text may go on. What has been read of it so far stands if the reader had an
answer: it looked at no token after the datum, or after the token that is at
fault. So the datum of a text, and its fault, are those of every longer text, as
long as a blank keeps the last atom from growing.

There is one answer that more input changes, which is that the tokens ended. It
leaves the reader inside some open lists, and reading on is the same as having
read everything at once. As many closing parentheses complete it, at any limit,
since the lists that are open were let through already.

Reading every datum of a text follows: each reading leaves fewer tokens than it
found, and the data of two texts are those of the first and those of the second.
-/

namespace TwinScheme

/-! ## Tokens -/

namespace Token

/-- A blank ends the tokens before it. -/
theorem scan_append_cons {c : Char} (hc : Text.isBlank c = true) (run as bs : List Char) :
    scan run (as ++ c :: bs) = scan run as ++ scan [] bs := by
  induction as generalizing run with
  | nil =>
      have hopening : c ≠ '(' := by
        rintro rfl
        cases hc
      have hclosing : c ≠ ')' := by
        rintro rfl
        cases hc
      rw [List.nil_append, scan, scan, if_neg hopening, if_neg hclosing, if_pos hc]
  | cons a as ih =>
      rw [List.cons_append, scan, scan]
      split
      · rw [ih, List.append_assoc]
        rfl
      · split
        · rw [ih, List.append_assoc]
          rfl
        · split
          · rw [ih, List.append_assoc]
          · exact ih (a :: run)

/-- The tokens of two texts with a blank between them. -/
theorem ofText_push_append {c : Char} (hc : Text.isBlank c = true) (text more : String) :
    ofText (text.push c ++ more) = ofText text ++ ofText more := by
  rw [ofText, String.toList_append, String.toList_push, List.append_assoc,
    List.singleton_append, scan_append_cons hc, ofText, ofText]

theorem ofText_closings (n : Nat) :
    ofText (String.ofList (List.replicate n ')')) = List.replicate n closing := by
  rw [ofText, String.toList_ofList]
  induction n with
  | zero => rfl
  | succ n ih =>
      rw [List.replicate_succ, List.replicate_succ, scan, if_neg (by decide), if_pos rfl, ih]
      rfl

end Token

/-! ## The first datum of a text -/

namespace Datum

variable {limit : Nat} {stack : List (List Datum)} {tokens rest : List Token}

/-- An answer other than that the tokens ended does not change with more tokens,
and leaves them alone. -/
theorem readWithin_append {r : Except ReadFault Datum} (hr : r ≠ .error .incomplete)
    (h : readWithin limit stack tokens = (r, rest)) (more : List Token) :
    readWithin limit stack (tokens ++ more) = (r, rest ++ more) := by
  fun_induction readWithin limit stack tokens with
  | case1 =>
      cases h
      exact absurd rfl hr
  | case2 stack tail hfull =>
      cases h
      rw [List.cons_append, readWithin, if_pos hfull]
  | case3 stack tail hroom ih =>
      rw [List.cons_append, readWithin, if_neg hroom]
      exact ih h
  | case4 | case5 | case7 =>
      cases h
      rfl
  | case6 items outer stack tail ih =>
      rw [List.cons_append, readWithin]
      exact ih h
  | case8 items stack text tail ih =>
      rw [List.cons_append, readWithin]
      exact ih h

/-- If the tokens end, some lists are open, and more tokens are read on inside
them. -/
theorem exists_stack_of_incomplete (h : (readWithin limit stack tokens).1 = .error .incomplete) :
    ∃ stack', ∀ more, readWithin limit stack (tokens ++ more) = readWithin limit stack' more := by
  fun_induction readWithin limit stack tokens with
  | case1 stack => exact ⟨stack, fun _ => rfl⟩
  | case2 | case4 | case5 | case7 => cases h
  | case3 stack tail hroom ih =>
      obtain ⟨stack', hstack⟩ := ih h
      refine ⟨stack', fun more => ?_⟩
      rw [List.cons_append, readWithin, if_neg hroom, hstack]
  | case6 items outer stack tail ih =>
      obtain ⟨stack', hstack⟩ := ih h
      refine ⟨stack', fun more => ?_⟩
      rw [List.cons_append, readWithin, hstack]
  | case8 items stack text tail ih =>
      obtain ⟨stack', hstack⟩ := ih h
      refine ⟨stack', fun more => ?_⟩
      rw [List.cons_append, readWithin, hstack]

/-- As many closing parentheses as there are open lists complete the outermost. -/
theorem readWithin_closings (items : List Datum) (stack : List (List Datum)) :
    ∃ d, readWithin limit (items :: stack) (List.replicate (stack.length + 1) .closing) =
      (.ok d, []) := by
  induction stack generalizing items with
  | nil => exact ⟨.list items.reverse, rfl⟩
  | cons outer stack ih =>
      rw [List.length_cons, List.replicate_succ, readWithin]
      exact ih (.list items.reverse :: outer)

/-- A text that completes what is open: it closes the lists, and is a datum if
there are none. -/
def completion : List (List Datum) → String
  | [] => "x"
  | _ :: stack => String.ofList (List.replicate (stack.length + 1) ')')

theorem readWithin_completion (limit : Nat) (stack : List (List Datum)) :
    ∃ d, readWithin limit stack (Token.ofText (completion stack)) = (.ok d, []) := by
  cases stack with
  | nil => exact ⟨ofAtom "x", rfl⟩
  | cons items stack =>
      rw [completion, Token.ofText_closings]
      exact readWithin_closings items stack

theorem parse_push_append {text : String} {c : Char} (hc : Text.isBlank c = true)
    (hr : parse limit text ≠ .error .incomplete) (more : String) :
    parse limit (text.push c ++ more) = parse limit text := by
  rw [parse, Token.ofText_push_append hc, read, readWithin_append hr rfl]

/-- What is left incomplete by a text can be completed. -/
theorem exists_parse_append_eq_ok {text : String} (h : parse limit text = .error .incomplete) :
    ∃ more d, parse limit (text ++ " " ++ more) = .ok d := by
  obtain ⟨stack, hstack⟩ := exists_stack_of_incomplete h
  obtain ⟨d, hd⟩ := readWithin_completion limit stack
  have hspace : text ++ " " = text.push ' ' := rfl
  refine ⟨completion stack, d, ?_⟩
  rw [hspace, parse, Token.ofText_push_append rfl, read, hstack, hd]

/-- The first datum of a text, or the reason why there is none, does not change
with what comes after a blank. A text whose tokens end too early is the one
exception, and is exactly a text that holds no datum yet and can be made to. -/
theorem parse_settled (limit : Nat) (text : String) :
    (parse limit text ≠ .error .incomplete → ∀ c, Text.isBlank c = true → ∀ more,
      parse limit (text.push c ++ more) = parse limit text) ∧
    (parse limit text = .error .incomplete ↔
      (∀ d, parse limit text ≠ .ok d) ∧
        ∃ more d, parse limit (text ++ " " ++ more) = .ok d) := by
  refine ⟨fun hr c hc more => parse_push_append hc hr more, fun h => ⟨?_, ?_⟩, ?_⟩
  · rw [h]
    exact fun _ => nofun
  · exact exists_parse_append_eq_ok h
  · rintro ⟨hnone, more, d, hd⟩
    by_contra hr
    have hspace : text ++ " " = text.push ' ' := rfl
    rw [hspace, parse_push_append rfl hr] at hd
    exact hnone d hd

/-- Two calls, one in the other: too deep for one level whatever follows, and
incomplete for two. -/
theorem parse_settled_calls :
    (parse 1 "(f (g" ≠ .error .incomplete ∧ Text.isBlank '\n' = true ∧
      parse 1 ("(f (g".push '\n' ++ "))") = parse 1 "(f (g") ∧
    parse 2 "(f (g" = .error .incomplete ∧
      ∃ more d, parse 2 ("(f (g" ++ " " ++ more) = .ok d := by
  have hdeep : parse 1 "(f (g" ≠ .error .incomplete := by
    have hfault : parse 1 "(f (g" = .error (.tooDeep 1) := rfl
    rw [hfault]
    nofun
  have hopen : parse 2 "(f (g" = .error .incomplete := rfl
  exact ⟨⟨hdeep, rfl, (parse_settled 1 "(f (g").1 hdeep '\n' rfl "))"⟩, hopen,
    ((parse_settled 2 "(f (g").2.1 hopen).2⟩

/-! ## Every datum of a text -/

theorem length_read_lt (limit : Nat) {tokens : List Token} (hne : tokens ≠ []) :
    (read limit tokens).2.length < tokens.length := by
  have hle := length_readWithin_le limit [] tokens
  have hpos := List.length_pos_iff.2 hne
  rw [read]
  omega

theorem ne_nil_of_read_eq_ok {d : Datum} (h : read limit tokens = (.ok d, rest)) : tokens ≠ [] := by
  rintro rfl
  cases h

theorem readAll_of_read_error {fault : ReadFault} (hne : tokens ≠ [])
    (h : read limit tokens = (.error fault, rest)) : readAll limit tokens = .error fault := by
  obtain ⟨t, ts, rfl⟩ := List.exists_cons_of_ne_nil hne
  rw [readAll]
  split
  · next fault' rest' h' =>
    cases h.symm.trans h'
    rfl
  · next d rest' h' => cases h.symm.trans h'

theorem readAll_of_read_ok {d : Datum} (h : read limit tokens = (.ok d, rest)) :
    readAll limit tokens = (readAll limit rest).map (d :: ·) := by
  obtain ⟨t, ts, rfl⟩ := List.exists_cons_of_ne_nil (ne_nil_of_read_eq_ok h)
  rw [readAll]
  split
  · next fault' rest' h' => cases h.symm.trans h'
  · next d' rest' h' =>
    cases h.symm.trans h'
    rfl

/-- What is read from two token lists is what is read from the first and then
from the second, unless a datum at the end of the first is incomplete. -/
theorem readAll_append (h : readAll limit tokens ≠ .error .incomplete) (more : List Token) :
    readAll limit (tokens ++ more) =
      (readAll limit tokens).bind fun ds => (readAll limit more).map (ds ++ ·) := by
  fun_induction readAll limit tokens with
  | case1 =>
      rw [List.nil_append]
      cases readAll limit more <;> rfl
  | case2 t ts fault rest hread =>
      -- The fault is none of the tokens' end, so the reader has it with more tokens too.
      have hfault : (.error fault : Except ReadFault Datum) ≠ .error .incomplete := by
        rintro ⟨⟩
        exact h rfl
      have hlonger := readWithin_append hfault hread more
      exact readAll_of_read_error (List.cons_ne_nil t (ts ++ more)) hlonger
  | case3 t ts d rest hread shorter ih =>
      have hrest : readAll limit rest ≠ .error .incomplete := by
        intro hincomplete
        rw [hincomplete] at h
        exact h rfl
      have hok : (.ok d : Except ReadFault Datum) ≠ .error .incomplete := nofun
      have hlonger := readWithin_append hok hread more
      rw [readAll_of_read_ok hlonger, ih hrest]
      cases readAll limit rest with
      | error fault => rfl
      | ok ds => cases readAll limit more <;> rfl

/-- Where reading every datum stands: what was read, last first, and what is left,
or what came of it. -/
inductive Reading where
  | going (items : List Datum) (rest : List Token)
  | ended (answer : Except ReadFault (List Datum))

namespace Reading

/-- Reads one more datum, if there are tokens left. -/
def next (limit : Nat) : Reading → Reading
  | going items [] => ended (.ok items.reverse)
  | going items (t :: ts) =>
    match read limit (t :: ts) with
    | (.error fault, _) => ended (.error fault)
    | (.ok d, rest) => going (d :: items) rest
  | ended answer => ended answer

theorem iterate_next_ended (limit : Nat) (answer : Except ReadFault (List Datum)) (n : Nat) :
    (next limit)^[n] (ended answer) = ended answer :=
  Function.iterate_fixed rfl n

/-- Reading every datum takes no more turns than there are tokens, and one to see
that there are none left. -/
theorem iterate_next {tokens : List Token} {n : Nat} (hn : tokens.length < n)
    (items : List Datum) :
    (next limit)^[n] (going items tokens) =
      ended ((readAll limit tokens).map (items.reverse ++ ·)) := by
  -- On the turns: one that reads a datum leaves fewer tokens to those that remain.
  induction n generalizing items tokens with
  | zero => cases hn
  | succ n ih =>
      rw [Function.iterate_succ_apply]
      cases tokens with
      | nil => rw [next, iterate_next_ended, readAll, Except.map, List.append_nil]
      | cons t ts =>
          have hshorter := length_read_lt limit (List.cons_ne_nil t ts)
          have hrest : (read limit (t :: ts)).2.length < n :=
            Nat.lt_of_lt_of_le hshorter (Nat.le_of_lt_succ hn)
          rw [next]
          rcases hread : read limit (t :: ts) with ⟨fault | d, rest⟩
          · rw [readAll_of_read_error (List.cons_ne_nil t ts) hread]
            exact iterate_next_ended limit _ n
          · rw [hread] at hrest
            rw [readAll_of_read_ok hread]
            dsimp only
            rw [ih hrest]
            cases readAll limit rest with
            | error fault => rfl
            | ok ds => simp [Except.map]

end Reading

theorem parseAll_push_append {text : String} {c : Char} (hc : Text.isBlank c = true)
    (h : parseAll text ≠ .error .incomplete) (more : String) :
    parseAll (text.push c ++ more) =
      (parseAll text).bind fun ds => (parseAll more).map (ds ++ ·) := by
  rw [parseAll, Token.ofText_push_append hc]
  exact readAll_append h (Token.ofText more)

theorem parse_of_parseAll {text : String} {d : Datum} {ds : List Datum}
    (h : parseAll text = .ok (d :: ds)) : parse defaultNesting text = .ok d := by
  have hne : Token.ofText text ≠ [] := by
    intro hnil
    rw [parseAll, hnil, readAll] at h
    cases h
  rcases hread : read defaultNesting (Token.ofText text) with ⟨fault | d', rest⟩
  · rw [parseAll, readAll_of_read_error hne hread] at h
    cases h
  · rw [parseAll, readAll_of_read_ok hread] at h
    rw [parse, hread]
    cases hrest : readAll defaultNesting rest with
    | error fault =>
        rw [hrest] at h
        cases h
    | ok ds' =>
        rw [hrest] at h
        cases h
        rfl

/-- The data of two texts with a blank between them are those of the first and
then those of the second. A fault in either is the fault of the whole, except that
the first may be incomplete and the second complete it. The first of all data is
the one that is read alone. And there is an answer for every text: each reading
takes at least one token, so the turns are no more than the tokens, and one. -/
theorem parseAll_compositional (text : String) :
    (∀ c, Text.isBlank c = true → ∀ more,
      (∀ ds, parseAll text = .ok ds →
        parseAll (text.push c ++ more) = (parseAll more).map (ds ++ ·)) ∧
      (∀ fault, parseAll text = .error fault → fault ≠ .incomplete →
        parseAll (text.push c ++ more) = .error fault)) ∧
    (∀ d ds, parseAll text = .ok (d :: ds) → parse defaultNesting text = .ok d) ∧
    (∀ limit tokens, tokens ≠ [] → (read limit tokens).2.length < tokens.length) ∧
    (Reading.next defaultNesting)^[(Token.ofText text).length + 1]
        (.going [] (Token.ofText text)) = .ended (parseAll text) := by
  refine ⟨fun c hc more => ⟨fun ds h => ?_, fun fault h hfault => ?_⟩,
    fun d ds h => parse_of_parseAll h, fun limit tokens => length_read_lt limit, ?_⟩
  · have hok : parseAll text ≠ .error .incomplete := by
      rw [h]
      nofun
    rw [parseAll_push_append hc hok, h]
    rfl
  · have hsettled : parseAll text ≠ .error .incomplete := by
      rw [h]
      rintro ⟨⟩
      exact hfault rfl
    rw [parseAll_push_append hc hsettled, h]
    rfl
  · rw [Reading.iterate_next (Nat.lt_succ_self _), parseAll]
    cases readAll defaultNesting (Token.ofText text) <;> rfl

/-- A list and a closing parenthesis too many, alone and in the middle. -/
theorem parseAll_compositional_unexpectedClose :
    Text.isBlank '\n' = true ∧ parseAll "(a)" = .ok [.list [.symbol "a"]] ∧
      parseAll ("(a)".push '\n' ++ "b )") = (parseAll "b )").map ([.list [.symbol "a"]] ++ ·) ∧
      parse defaultNesting "(a)" = .ok (.list [.symbol "a"]) ∧
      parseAll "b )" = .error .unexpectedClose ∧
      parseAll ("b )".push '\n' ++ "(a)") = .error .unexpectedClose ∧
      (read defaultNesting [.closing]).2.length < [Token.closing].length := by
  have hlist : parseAll "(a)" = .ok [.list [.symbol "a"]] := by
    have hread : read defaultNesting (Token.ofText "(a)") = (.ok (.list [.symbol "a"]), []) := rfl
    rw [parseAll, readAll_of_read_ok hread, readAll]
    rfl
  have hclose : parseAll "b )" = .error .unexpectedClose := by
    have hread : read defaultNesting (Token.ofText "b )") = (.ok (.symbol "b"), [.closing]) := rfl
    have hrest : read defaultNesting [.closing] = (.error .unexpectedClose, []) := rfl
    rw [parseAll, readAll_of_read_ok hread, readAll_of_read_error (by simp) hrest]
    rfl
  obtain ⟨happend, hfirst, hshorter, -⟩ := parseAll_compositional "(a)"
  refine ⟨rfl, hlist, (happend '\n' rfl "b )").1 _ hlist, hfirst _ _ hlist, hclose, ?_,
    hshorter defaultNesting [.closing] (by simp)⟩
  exact ((parseAll_compositional "b )").1 '\n' rfl "(a)").2 _ hclose (by decide)

end Datum
end TwinScheme
