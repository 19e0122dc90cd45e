import TwinScheme.Comparison
import TwinScheme.Host.Command
import TwinScheme.Proofs.Host.Formats
import TwinScheme.Proofs.Observation.Notation
import TwinScheme.Proofs.Reader.RoundTrip
import TwinScheme.Proofs.Session.Programs

/-!
# What is observed of the commands of a host

The host of some files has commands that print their argument, as it is or as a
format, and one that prints a file. A reference is judged by what it prints, and for
these commands that is the argument or the file: no byte of it is lost on the way,
and the line feed that a command puts at the end plays no part. So a program that is
a numeral agrees with the command that prints it.
-/

namespace TwinScheme

theorem Observation.ofText_line (text : String) : ofText (text ++ "\n") = ofText text := by
  have htrim : Text.trim (text ++ "\n").toList = Text.trim text.toList := by
    rw [String.toList_append]
    exact Text.trim_concat rfl text.toList
  rw [ofText, htrim, ofText]

variable {files : Files} {command path text : String}

/-- What was printed is taken for what it says. -/
theorem Host.observe_of_printing {host : Host}
    (h : host.run command path = .ok (.printing (Text.encode text))) :
    host.observe command path = (Observation.ofText text).mapError .undecodable := by
  rw [observe, h, Except.mapError]
  dsimp only [bind, Except.bind, Finished.printing]
  rw [if_pos rfl, Text.decodeLossy_encode]

theorem Host.run_name (p : Program) (hpath : '\x00' ∉ path.toList) :
    (Host.ofFiles files).run p.name path = .ok (Command.run files p.name path p) := by
  have hname : (p.name.toList.contains '\x00' || path.toList.contains '\x00') = false := by
    rw [Bool.or_eq_false_iff, List.contains_eq_mem, List.contains_eq_mem]
    exact ⟨by cases p <;> rfl, decide_eq_false hpath⟩
  have hprogram : files.program p.name = .ok p := by
    cases p <;> rfl
  rw [Host.ofFiles]
  dsimp only
  rw [Files.run, hname, if_neg Bool.false_ne_true, hprogram]
  rfl

theorem observe_echo (hpath : '\x00' ∉ path.toList)
    (hoption : Command.isEchoOption path.toList = false) :
    (Host.ofFiles files).observe "echo" path =
      (Observation.ofText path).mapError .undecodable := by
  have hrun : (Host.ofFiles files).run "echo" path =
      .ok (.printing (Text.encode (path ++ "\n"))) := by
    refine (Host.run_name .echo hpath).trans ?_
    rw [Command.run, Command.echo, hoption]
    rfl
  rw [Host.observe_of_printing hrun, Observation.ofText_line]

theorem observe_printf (hpath : '\x00' ∉ path.toList) (hdashes : path ≠ "--")
    (hplain : ∀ c ∈ path.toList, c ≠ '\\' ∧ c ≠ '%') :
    (Host.ofFiles files).observe "printf" path =
      (Observation.ofText path).mapError .undecodable := by
  have hrun : (Host.ofFiles files).run "printf" path = .ok (.printing (Text.encode path)) := by
    refine (Host.run_name .printf hpath).trans ?_
    rw [Command.run, Command.printf, if_neg hdashes, Format.print_of_plain hplain]
  exact Host.observe_of_printing hrun

/-- Nothing that starts with a dash is the name of a file to `cat`. -/
theorem observe_cat (hpath : '\x00' ∉ path.toList) (hdash : path.toList.head? ≠ some '-')
    (hread : files.read path = .ok (Text.encode text)) :
    (Host.ofFiles files).observe "cat" path =
      (Observation.ofText text).mapError .undecodable := by
  have hoptions : ∀ option ∈ "-" :: "--" :: Command.catOptions, option.toList.head? = some '-' := by
    decide
  have hnot : path ∉ "-" :: "--" :: Command.catOptions := fun hmem => hdash (hoptions path hmem)
  have hrun : (Host.ofFiles files).run "cat" path = .ok (.printing (Text.encode text)) := by
    refine (Host.run_name .cat hpath).trans ?_
    rw [Command.run, Command.cat, if_neg (by simpa [and_assoc] using hnot)]
    split
    · next h => exact absurd (by rw [h]; rfl) hdash
    · next h => exact absurd (by rw [h]; rfl) hdash
    · rw [hread]
  exact Host.observe_of_printing hrun

/-! ## A numeral as a program -/

theorem Datum.parse_integerText (limit : Nat) (n : Int64) :
    parse limit (Number.integerText n.toInt) = .ok (.int n) := by
  have htokens : Token.ofText (Number.integerText n.toInt) =
      [.atom (Number.integerText n.toInt)] :=
    (@Value.Spelled.int 0 n).ofText_display (List.forall_mem_nil _)
  rw [parse, htokens, read, readWithin_atom, deliver]
  exact congrArg Except.ok (ofAtom_eq_int_iff.2 (Number.int64?_integerText n))

theorem Session.evalDatum_int (s : Session) (n : Int64) : s.evalDatum (.int n) = (.ok (.int n), s) := by
  cases s with
  | lexical limits top m =>
      rw [evalDatum_lexical, Scoping.evaluate,
        Scoping.eval_of_isSelfEvaluating _ _ _ _ rfl]
      rfl
  | textual limits m =>
      rw [evalDatum_textual, Scoping.evaluate,
        Scoping.eval_of_isSelfEvaluating _ _ _ _ rfl]
      rfl

namespace Program

/-- An atom is a line that is evaluated, unless it starts as a comment does. -/
theorem lines_of_isAtom {text : String} (h : Token.IsAtom text.toList) (hhash : '#' ∉ text.toList)
    (hsemicolon : ';' ∉ text.toList) : lines text = [text] := by
  have hfeed : '\n' ∉ text.toList := fun hmem => absurd (h.plain _ hmem) (by decide)
  have hopening : '(' ∉ text.toList := fun hmem => absurd (h.plain _ hmem) (by decide)
  obtain ⟨c, rest, hcons⟩ := List.exists_cons_of_ne_nil h.ne_nil
  have hvisible : Text.isBlank c = false := by
    have hplain := h.plain c (hcons ▸ List.mem_cons_self)
    rw [Token.isPlain, Bool.not_eq_true', Bool.or_eq_false_iff, Bool.or_eq_false_iff] at hplain
    exact hplain.1.1
  have hevaluated : Evaluated text.toList :=
    { hash := fun hstart => hhash (hstart.subset List.mem_cons_self)
      semicolon := fun hstart => hsemicolon (hstart.subset List.mem_cons_self)
      require := fun hstart => hopening (hstart.subset List.mem_cons_self)
      visible := ⟨c, hcons ▸ List.mem_cons_self, hvisible⟩ }
  rw [lines_eq (.last h.ne_nil hfeed), List.filter_singleton, decide_eq_true hevaluated]
  exact congrArg (fun line => [line]) (String.ofList_toList)

theorem lines_integerText (n : Int) :
    lines (Number.integerText n) = [Number.integerText n] := by
  have habsent : ∀ c, c.isDigit = false → c ≠ '+' → c ≠ '-' →
      c ∉ (Number.integerText n).toList := by
    intro c hdigit hplus hminus hc
    rcases Number.of_mem_integer? (Number.integer?_integerText n) hc with h | h | h
    · rw [hdigit] at h
      cases h
    · exact hplus h
    · exact hminus h
  exact lines_of_isAtom (Number.integerText_isAtom n) (habsent '#' rfl (by decide) (by decide))
    (habsent ';' rfl (by decide) (by decide))

theorem run_integerText (s : Session) (n : Int64) :
    run s (Number.integerText n.toInt) = (.ok (some (.int n)), s) := by
  have heval : s.evalLine (Number.integerText n.toInt) = (.ok (.int n), s) := by
    rw [Session.evalLine, Datum.parse_integerText]
    exact s.evalDatum_int n
  rw [run, lines_integerText, runLines, heval]
  rfl

end Program

/-- Whatever the strategy and the limits, a file with the numeral of an integer agrees
with the reference that prints the file. -/
theorem Comparison.ofFile_integerText (strategy : Strategy) (limits : Limits) (n : Int64)
    (hpath : '\x00' ∉ path.toList) (hdash : path.toList.head? ≠ some '-')
    (hread : files.read path = .ok (Text.encode (Number.integerText n.toInt))) :
    ofFile (.ofFiles files) path strategy limits "cat" =
      .ok ⟨path, strategy, .int n, .int n⟩ := by
  have htext : Observation.ofText (Number.integerText n.toInt) = .ok (.int n) := by
    have hnumeral := (Observation.text_isAtom (.int n)).trims_self
    exact (Observation.ofText_eq_ok_iff hnumeral).2 (Observation.written_text (.int n))
  have hsource : (Host.ofFiles files).readText path = .ok (Number.integerText n.toInt) := by
    have hbytes : (Host.ofFiles files).read path =
        .ok (Text.encode (Number.integerText n.toInt)) := hread
    rw [Host.readText, hbytes]
    dsimp only [bind, Except.bind]
    rw [Text.decode?_eq_some_iff.2 rfl]
  have hexpected : (Host.ofFiles files).observe "cat" path = .ok (.int n) := by
    rw [observe_cat hpath hdash hread, htext]
    rfl
  rw [ofFile, hsource]
  dsimp only [bind, Except.bind, Except.mapError]
  rw [Program.run_integerText]
  dsimp only [Observation.ofValue]
  rw [hexpected]
  rfl

end TwinScheme
