import TwinScheme.Proofs.Observation.Notation
import TwinScheme.Proofs.Reader.Names
import TwinScheme.Proofs.Session.Processes

/-!
# Values and their texts, observed

A value is observed by what it is, and the output of another implementation by its
text. The two agree on a value and the text of that value, except where the text says
less than the value does: a quoted symbol that is spelled as a truth value is no truth
value, and its text is one. No symbol is spelled as an integer, since the reader makes
an integer of such an atom; that is a property of what a process can get hold of.
Lists and procedures have texts that no result has, and no blanks around them.
-/

namespace TwinScheme

open Observation (ofText ofValue)

namespace Observation

theorem ofText_text (o : Observation) : ofText o.text = .ok o :=
  (ofText_eq_ok_iff o.text_isAtom.trims_self).2 o.written_text

/-- There are characters that stand in the text of no result. -/
theorem not_written_of_mem {cs : List Char} {c : Char} (hc : c ∈ cs)
    (hmark : c ∉ "#tf+-".toList) (hdigit : c.isDigit = false) (o : Observation) :
    ¬Written cs o := by
  have hwords : "#t".toList ⊆ "#tf+-".toList ∧ "#f".toList ⊆ "#tf+-".toList := by decide
  have hsigns : ['+', '-'] ⊆ "#tf+-".toList := by decide
  rintro (_ | _ | hn)
  · exact hmark (hwords.1 hc)
  · exact hmark (hwords.2 hc)
  · rcases Number.of_mem_integer? (Number.integer?_eq_some_iff.2 hn) hc with h | rfl | rfl
    · rw [hdigit] at h
      cases h
    · exact hmark (hsigns List.mem_cons_self)
    · exact hmark (hsigns (List.mem_cons_of_mem _ List.mem_cons_self))

/-- A text without blanks at its ends is given back if it is that of no result. -/
theorem ofText_eq_error {text : String} (h : Text.Trims text.toList text.toList)
    (hnone : ∀ o, ¬Written text.toList o) : ofText text = .error text :=
  (ofText_eq_error_iff h).2 ⟨hnone, String.ofList_toList.symm⟩

theorem ofText_display_list (id : Identity) (items : List Value) :
    ofText (Value.list id items).display = .error (Value.list id items).display := by
  have htext : (Value.list id items).display.toList =
      '(' :: (" ".intercalate (Value.displayAll items)).toList ++ [')'] := by
    rw [Value.display, String.toList_append, String.toList_append]
    rfl
  refine ofText_eq_error ?_ (not_written_of_mem (c := '(') ?_ (by decide) rfl) <;> rw [htext]
  · exact Text.trims_enclosed rfl rfl _
  · exact List.mem_cons_self

theorem ofText_display_primitive (p : Primitive) :
    ofText (Value.primitive p).display = .error (Value.primitive p).display := by
  have htext : (Value.primitive p).display.toList =
      '#' :: ("<procedure:".toList ++ p.name.toList) ++ ['>'] := by
    rw [Value.display, String.toList_append, String.toList_append]
    rfl
  refine ofText_eq_error ?_ (not_written_of_mem (c := '>') ?_ (by decide) rfl) <;> rw [htext]
  · exact Text.trims_enclosed rfl rfl _
  · exact List.mem_concat_self

/-- A symbol that was read is spelled as a truth value or as no result at all. -/
theorem ofText_symbol {x : String} (hx : Datum.IsName x) (hword : ∀ b, x ≠ (bool b).text) :
    ofText x = .error x := by
  refine ofText_eq_error hx.atom.trims_self fun o ho => ?_
  have hnone := hx.int64?_eq_none
  generalize hcs : x.toList = cs at ho hnone
  cases ho with
  | true => exact hword true (String.toList_inj.1 hcs)
  | false => exact hword false (String.toList_inj.1 hcs)
  | int hn =>
      rw [Number.int64?_eq_some_iff.2 hn] at hnone
      cases hnone

end Observation

namespace Value

/-- A value is observed as its text is, unless it is a symbol that is spelled as a truth
value. Such a symbol is not observed, and its text is. -/
structure ObservedAlike (v : Value) : Prop where
  alike : (∀ b, v ≠ .symbol (Observation.bool b).text) → ofValue v = ofText v.display
  word : ∀ b, v = .symbol (Observation.bool b).text →
    ofValue v = .error v.display ∧ ofText v.display = .ok (.bool b)

theorem ObservedAlike.of_eq {v : Value} (h : ofValue v = ofText v.display)
    (hsymbol : v.isSymbol = false) : v.ObservedAlike where
  alike _ := h
  word b hv := by
    rw [hv] at hsymbol
    cases hsymbol

/-- Such symbols are all that is in the way of observing a value through its text. -/
theorem ObservedAlike.ok_iff {v : Value} (h : v.ObservedAlike) :
    (∀ o, ofValue v = .ok o ↔ ofText v.display = .ok o) ↔
      ∀ b, v ≠ .symbol (Observation.bool b).text := by
  constructor
  · rintro hok b hv
    obtain ⟨hvalue, htext⟩ := h.word b hv
    rw [(hok (.bool b)).2 htext] at hvalue
    cases hvalue
  · intro hword o
    rw [h.alike hword]

theorem observedAlike_symbol {x : String} (hx : Datum.IsName x) : (symbol x).ObservedAlike where
  alike hword := by
    have hne : ∀ b, x ≠ (Observation.bool b).text := fun b hb => hword b (congrArg symbol hb)
    exact (Observation.ofText_symbol hx hne).symm
  word b hv := by
    rw [hv]
    exact ⟨rfl, Observation.ofText_text (.bool b)⟩

theorem Recorded.observedAlike {L : Ledger} (hnames : ∀ x, L.names x → Datum.IsName x)
    {v : Value} (h : v.Recorded L) (hfloat : ∀ x, v ≠ .float x) : v.ObservedAlike := by
  cases v with
  | int n => exact .of_eq (Observation.ofText_text (.int n)).symm rfl
  | float x => exact absurd rfl (hfloat x)
  | symbol x =>
      cases h with
      | constant hc => cases hc
      | symbol hx => exact observedAlike_symbol (hnames x hx)
  | bool b => exact .of_eq (Observation.ofText_text (.bool b)).symm rfl
  | list id items => exact .of_eq (Observation.ofText_display_list id items).symm rfl
  | primitive p => exact .of_eq (Observation.ofText_display_primitive p).symm rfl
  | closure | lambda =>
      refine .of_eq ?_ rfl
      rw [ofValue, display]
      · rfl
      all_goals exact nofun
  | unspecified => exact .of_eq rfl rfl

end Value

/-- A value that a process gets hold of, or that a program has. -/
inductive Value.Produced (v : Value) : Prop
  | held {h : Holdings} : Holdings.Attained Datum.Readable h → h.Has v → Produced v
  | program {strategy limits source t} :
      Program.run (Session.start strategy limits) source = (.ok (some v), t) → Produced v

theorem Value.Produced.exists_has {v : Value} (hv : v.Produced) :
    ∃ h, Holdings.Attained Datum.Readable h ∧ h.Has v := by
  cases hv with
  | @held h hh hv => exact ⟨h, hh, hv⟩
  | program hrun =>
      have hreads : ∀ nesting text d, Datum.parse nesting text = .ok d → d.Readable :=
        fun _ _ _ => .of_parse
      obtain ⟨h, hh, -, hv⟩ := Holdings.exists_has_of_run hreads hrun
      exact ⟨h, hh, hv⟩

/-- Every symbol in a value that was produced has a name that was read, or a keyword's. -/
theorem Value.Produced.recorded {v : Value} (hv : v.Produced) :
    ∃ L : Ledger, (∀ x, L.names x → Datum.IsName x) ∧ v.Recorded L := by
  obtain ⟨h, hh, hhas⟩ := hv.exists_has
  obtain ⟨L, hL, hholdings⟩ := hh.recorded Datum.isName_keyword fun _ hd => hd.isNamed
  refine ⟨L, ?_, hholdings.has hhas⟩
  rw [hL]
  exact fun _ hx => hx

/-- A session evaluates the quotation of a symbol to the symbol. -/
theorem Session.evalDatum_quote (s : Session) (hdepth : s.limits.depth ≠ 0) (x : String) :
    ∃ t, s.evalDatum (.list [.symbol "quote", .symbol x]) = (.ok (.symbol x), t) := by
  obtain ⟨left, hleft⟩ := Nat.exists_eq_succ_of_ne_zero hdepth
  cases s with
  | lexical l top m =>
      dsimp only [limits] at hleft
      rw [evalDatum_lexical, hleft]
      exact ⟨_, rfl⟩
  | textual l m =>
      dsimp only [limits] at hleft
      rw [evalDatum_textual, hleft]
      exact ⟨_, rfl⟩

namespace Observation

/-- A value that was produced, if it is no float, is observed through its text exactly if
it is no symbol that is spelled as a truth value. If it is none, what is wrong with it is
also said alike; and if it is one, it is not observed and its text is. -/
theorem ofValue_against_ofText {v : Value} (hv : v.Produced) (hfloat : ∀ x, v ≠ .float x) :
    ((∀ o, ofValue v = .ok o ↔ ofText v.display = .ok o) ↔ ∀ b, v ≠ .symbol (bool b).text) ∧
      v.ObservedAlike := by
  obtain ⟨L, hnames, hrecorded⟩ := hv.recorded
  have halike := hrecorded.observedAlike hnames hfloat
  exact ⟨halike.ok_iff, halike⟩

/-- The program that quotes the word for truth. -/
theorem run_quoted (strategy : Strategy) :
    ∃ t, Program.run (Session.start strategy ⟨8, 8⟩) "(quote #t)" =
      (.ok (some (.symbol "#t")), t) := by
  let s := Session.start strategy ⟨8, 8⟩
  have hlines : Program.lines "(quote #t)" = ["(quote #t)"] := rfl
  have hparse : Datum.parse 8 "(quote #t)" = .ok (.list [.symbol "quote", .symbol "#t"]) := rfl
  have hdepth : s.limits.depth ≠ 0 := by simp [s]
  obtain ⟨t, ht⟩ := s.evalDatum_quote hdepth "#t"
  refine ⟨t, ?_⟩
  rw [Program.run, hlines, Program.runLines, Session.evalLine, Session.limits_start]
  simp only [hparse, ht, s]
  rfl

/-- A list that was read is observed as its text is, and the symbol that a program
quotes is not. -/
theorem ofValue_against_ofText_quoted :
    (Value.Produced (.list 0 [.int 7]) ∧ ofValue (.list 0 [.int 7]) = .error "(7)" ∧
      ofText "(7)" = .error "(7)") ∧
    Value.Produced (.symbol "#t") ∧ ofValue (.symbol "#t") = .error "#t" ∧
      ofText "#t" = .ok (.bool true) := by
  constructor
  · let h := Holdings.blank.reading (.list [.int 7])
    have hh : Holdings.Attained Datum.Readable h := .single (.reads ⟨8, "(7)", rfl⟩)
    have hv : Value.Produced (.list 0 [.int 7]) := .held hh (.value List.mem_cons_self)
    obtain ⟨-, halike⟩ := ofValue_against_ofText hv nofun
    exact ⟨hv, rfl, (halike.alike nofun).symm⟩
  · obtain ⟨t, hrun⟩ := run_quoted .lexical
    have hv : Value.Produced (.symbol "#t") := .program hrun
    obtain ⟨-, halike⟩ := ofValue_against_ofText hv nofun
    exact ⟨hv, halike.word true rfl⟩

/-- Not every value of a program that is no float is observed as its text is. -/
theorem not_ofValue_iff_ofText :
    ¬∀ strategy limits source v t,
      Program.run (Session.start strategy limits) source = (.ok (some v), t) →
        (∀ x, v ≠ .float x) → ∀ o, ofValue v = .ok o ↔ ofText v.display = .ok o := by
  intro h
  obtain ⟨t, hrun⟩ := run_quoted .textual
  have hobserved := (h _ _ _ _ _ hrun nofun (.bool true)).2 (ofText_text (.bool true))
  cases hobserved

end Observation

end TwinScheme
