import Mathlib.Data.List.DropRight
import TwinScheme.Proofs.Console.Typing
import TwinScheme.Proofs.Session.Reset
import TwinScheme.Proofs.Text.Trimming

/-!
# What a conversation remembers

A conversation carries a configuration and a session along, and commands change the
one or the other. It could do without: what is said to an entry depends on the
strategy that was chosen last and on the expressions since definitions were last
forgotten, and on nothing else that was typed. `transcript` says it line by line,
from the entries alone, with a session started for each of them and given those
expressions again; how lines are read as entries is said by the relation `Reads`.

That the conversation is in step with its entries is an invariant: the configuration
has the strategy chosen last, and nobody can tell the session from the one that is
rebuilt. It is kept by every entry, and with it what is said is what is in the
transcript.
-/

namespace TwinScheme.Console.Repl

open List (Forall₂)
open Session (withX evalLine_define evalLine_set)

/-! ## How lines are read -/

/-- The words that spell a command. -/
inductive Spells : List String → Command → Prop
  | help : Spells ["help"] .help
  | env : Spells ["env"] .definitions
  | reset : Spells ["reset"] .reset
  | strategy : Spells ["strategy"] .showStrategy
  | switch (name) : Spells ["strategy", name] (.switch name)
  | quit : Spells ["quit"] .quit
  | exit : Spells ["exit"] .quit

/-- What a line is, given what is left of it without the blanks at its ends. -/
inductive Means : List Char → Entry → Prop
  | blank : Means [] .blank
  | command {text c} : Spells ((Text.words text).map String.ofList) c →
      Means (':' :: text) (.command c)
  | unknown {text} : (∀ c, ¬Spells ((Text.words text).map String.ofList) c) →
      Means (':' :: text) (.command (.unknown (String.ofList text)))
  | expression {c text} : c ≠ ':' → Means (c :: text) (.expression (String.ofList (c :: text)))

/-- What a line is. -/
def Reads (text : List Char) (entry : Entry) : Prop :=
  ∃ middle, Text.Trims text middle ∧ Means middle entry

/-- A command is the one that its words spell, if there is one. -/
theorem parse_of_spells {text : List Char} {c : Command}
    (h : Spells ((Text.words text).map String.ofList) c) : Command.parse text = c := by
  rw [Command.parse]
  generalize (Text.words text).map String.ofList = words at h
  cases h <;> rfl

theorem parse_cases (text : List Char) :
    Spells ((Text.words text).map String.ofList) (.parse text) ∨
      Command.parse text = .unknown (String.ofList text) := by
  rw [Command.parse]
  split
  case h_8 => exact .inr rfl
  all_goals
    next hwords =>
      rw [hwords]
      exact .inl (by constructor)

theorem parse_of_means {text : List Char} {entry : Entry} (h : Means (Text.trim text) entry) :
    Entry.parse text = entry := by
  rw [Entry.parse]
  generalize Text.trim text = middle at h
  cases h with
  | blank => rfl
  | command hc => exact congrArg Entry.command (parse_of_spells hc)
  | @unknown text hnone =>
      have hparse := (parse_cases text).resolve_left (hnone _)
      exact congrArg Entry.command hparse
  | @expression c text hne =>
      split
      · next h => cases h
      · next h => exact absurd (List.cons.inj h).1 hne
      · rfl

theorem means_parse (text : List Char) : Means (Text.trim text) (Entry.parse text) := by
  rw [Entry.parse]
  split
  · next h => rw [h]; exact .blank
  · next rest h =>
    rw [h]
    by_cases hnone : ∃ c, Spells ((Text.words rest).map String.ofList) c
    · obtain ⟨c, hc⟩ := hnone
      rw [parse_of_spells hc]
      exact .command hc
    · have hnone := not_exists.1 hnone
      rw [(parse_cases rest).resolve_left (hnone _)]
      exact .unknown hnone
  · next hnil hcolon =>
    obtain ⟨c, rest, h⟩ := List.exists_cons_of_ne_nil hnil
    rw [h]
    refine .expression ?_
    rintro rfl
    exact hcolon rest h

/-- Every line is read as one entry, and as no other. -/
theorem reads_iff {text : List Char} {entry : Entry} :
    Reads text entry ↔ Entry.parse text = entry := by
  constructor
  · rintro ⟨middle, htrims, hmeans⟩
    rw [← htrims.trim_eq] at hmeans
    exact parse_of_means hmeans
  · rintro rfl
    exact ⟨Text.trim text, Text.trims_trim text, means_parse text⟩

/-! ## What is to be remembered of earlier entries -/

/-- The strategy that an entry chooses. -/
def Entry.strategy? : Entry → Option Strategy
  | command (.switch "env") => some .lexical
  | command (.switch "subst") => some .textual
  | _ => none

/-- Whether an entry makes the conversation forget what was defined. -/
def Entry.forgets : Entry → Bool
  | command .reset => true
  | entry => entry.strategy?.isSome

/-- The expression that an entry is. -/
def Entry.expression? : Entry → Option String
  | expression text => some text
  | _ => none

/-- The strategy that was chosen last. -/
def active (initial : Strategy) (earlier : List Entry) : Strategy :=
  (earlier.filterMap Entry.strategy?).getLast?.getD initial

/-- The expressions since definitions were last forgotten. -/
def remembered (earlier : List Entry) : List String :=
  (earlier.rtakeWhile fun entry => !entry.forgets).filterMap Entry.expression?

/-- A new session that was given what is to be remembered. -/
def rebuilt (initial : Strategy) (limits : Limits) (earlier : List Entry) : Session :=
  (Session.start (active initial earlier) limits).after (remembered earlier)

section

variable {initial : Strategy} {limits : Limits} {earlier : List Entry} {entry : Entry}

@[simp] theorem strategy_rebuilt :
    (rebuilt initial limits earlier).strategy = active initial earlier := by
  simp [rebuilt]

@[simp] theorem limits_rebuilt : (rebuilt initial limits earlier).limits = limits := by
  simp [rebuilt]

theorem active_append (h : entry.strategy? = none) :
    active initial (earlier ++ [entry]) = active initial earlier := by
  rw [active, List.filterMap_append, List.filterMap_cons_none h, List.filterMap_nil,
    List.append_nil, active]

theorem active_append_of_some {strategy : Strategy} (h : entry.strategy? = some strategy) :
    active initial (earlier ++ [entry]) = strategy := by
  rw [active, List.filterMap_append, List.filterMap_cons_some h, List.filterMap_nil,
    List.getLast?_concat, Option.getD_some]

theorem remembered_append (h : entry.forgets = false) :
    remembered (earlier ++ [entry]) = remembered earlier ++ entry.expression?.toList := by
  rw [remembered, List.rtakeWhile_concat, h, if_pos Bool.not_false, List.filterMap_append,
    remembered, List.filterMap_cons]
  cases entry.expression? <;> rfl

theorem remembered_append_of_forgets (h : entry.forgets = true) :
    remembered (earlier ++ [entry]) = [] := by
  rw [remembered, List.rtakeWhile_concat, h]
  rfl

end

/-! ## What is said -/

/-- Lines of text. -/
def lined (texts : List String) : String :=
  String.join (texts.map (· ++ "\n"))

/-- The lines in which the result of an expression is shown. -/
def shown : Except Error Value → List String
  | .ok .unspecified => []
  | .ok v => [v.display]
  | .error e => ["Error: " ++ e.message]

/-- The lines in which definitions are listed. -/
def listed (b : Bindings) : List String :=
  match b.entries with
  | [] => ["No definitions."]
  | entries => entries.map fun entry => "  " ++ entry.1 ++ " = " ++ entry.2.display

/-- What is said to an entry after earlier ones. -/
def said (initial : Strategy) (limits : Limits) (earlier : List Entry) : Entry → List String
  | .blank => []
  | .expression text => shown ((rebuilt initial limits earlier).evalLine text).1
  | .command .definitions => listed (rebuilt initial limits earlier).definitions
  | .command .showStrategy =>
    match active initial earlier with
    | .lexical => ["env"]
    | .textual => ["subst"]
  | .command .reset => ["Definitions cleared."]
  | .command (.switch name) =>
    if name = "env" ∨ name = "subst" then
      ["Switched to " ++ name ++ " (definitions cleared)."]
    else ["Unknown strategy: " ++ name ++ " (expected env or subst)"]
  | .command .quit => ["Goodbye!"]
  | .command .help => helpLines
  | .command (.unknown text) => ["Unknown command :" ++ text ++ "; try :help"]

/-- What is said to entries one after another, up to the first that quits, and at
the end of the input if none does. -/
def transcript (initial : Strategy) (limits : Limits) (earlier : List Entry) :
    List Entry → List String
  | [] => ["Goodbye!"]
  | entry :: rest =>
    said initial limits earlier entry ++
      if entry = .command .quit then []
      else transcript initial limits (earlier ++ [entry]) rest

theorem lined_append (texts texts' : List String) :
    lined (texts ++ texts') = lined texts ++ lined texts' := by
  rw [lined, List.map_append, String.join_append, lined, lined]

theorem lined_singleton (text : String) : lined [text] = line text := by
  rw [lined, List.map_singleton, String.join_cons, String.join_nil, String.append_empty, line]

theorem lined_shown (result : Except Error Value) : lined (shown result) = resultText result := by
  rcases result with e | v
  · exact lined_singleton _
  · cases v with
    | unspecified => rfl
    | _ => exact lined_singleton _

theorem lined_listed (b : Bindings) : lined (listed b) = definitionsText b := by
  rw [definitionsText, listed]
  split
  · next h => rw [h]; exact lined_singleton _
  · next entries hne =>
    have hsome : b.entries.isEmpty = false := List.isEmpty_eq_false_iff.2 hne
    rw [hsome, lined, List.map_map]
    rfl

/-! ## Sessions that nobody can tell apart are answered from alike -/

theorem shown_eq {r r' : Except Error Value} (h : SameReply r r') : shown r = shown r' := by
  have hshown : ∀ v, v ≠ .unspecified → shown (.ok v) = [v.display] := by
    intro v hv
    cases v with
    | unspecified => exact absurd rfl hv
    | _ => rfl
  cases h with
  | error he => exact congrArg (fun text => ["Error: " ++ text]) he.message_eq
  | @value v w hvw =>
      by_cases hw : w = .unspecified
      · rw [hw, hvw.eq_unspecified hw]
      · have hv : v ≠ .unspecified := fun hv => hw (hvw.symm.eq_unspecified hv)
        rw [hshown v hv, hshown w hw, hvw.display]

theorem listed_eq {b b' : Bindings} (h : b.LooksLike b') : listed b = listed b' := by
  have hlines : b.entries.map (fun entry => "  " ++ entry.1 ++ " = " ++ entry.2.display) =
      b'.entries.map fun entry => "  " ++ entry.1 ++ " = " ++ entry.2.display := by
    refine List.forall₂_eq_eq_eq ▸ List.forall₂_map_left_iff.2 (List.forall₂_map_right_iff.2 ?_)
    refine h.imp ?_
    rintro ⟨name, v⟩ ⟨_, v'⟩ ⟨rfl, hv⟩
    exact congrArg ("  " ++ name ++ " = " ++ ·) hv.display
  rw [Bindings.LooksLike] at h
  rw [listed, listed]
  cases hentries : b.entries with
  | nil =>
      rw [hentries, List.forall₂_nil_left_iff] at h
      rw [h]
  | cons entry rest =>
      obtain ⟨entry', rest', -, -, hentries'⟩ := List.forall₂_cons_left_iff.1 (hentries ▸ h)
      rw [hentries, hentries'] at hlines
      rw [hentries']
      exact hlines

/-! ## A conversation is in step with its entries -/

/-- The configuration has the strategy that was chosen last, and nobody can tell the
session from the one that is rebuilt. -/
structure InStep (initial : Strategy) (limits : Limits) (earlier : List Entry)
    (state : State) : Prop where
  config : state.config = ⟨active initial earlier, limits⟩
  session : (rebuilt initial limits earlier).Alike state.session

variable {initial : Strategy} {limits : Limits} {earlier : List Entry} {state : State}

theorem ofName?_of_ne {name : String} (henv : name ≠ "env") (hsubst : name ≠ "subst") :
    Strategy.ofName? name = none := by
  rw [Strategy.ofName?, List.find?_eq_none]
  rintro (_ | _) - hname
  · exact henv (beq_iff_eq.1 hname).symm
  · exact hsubst (beq_iff_eq.1 hname).symm

theorem ofName?_eq (name : String) :
    Strategy.ofName? name = (Entry.command (.switch name)).strategy? := by
  rw [Entry.strategy?.eq_def]
  split
  · next h => cases h; rfl
  · next h => cases h; rfl
  · next henv hsubst =>
    exact ofName?_of_ne (fun h => henv (h ▸ rfl)) fun h => hsubst (h ▸ rfl)

theorem forgets_switch (name : String) :
    (Entry.command (.switch name)).forgets = (Entry.command (.switch name)).strategy?.isSome :=
  rfl

theorem inStep_start (initial : Strategy) (limits : Limits) :
    InStep initial limits [] (.start ⟨initial, limits⟩) where
  config := rfl
  session := .refl _

namespace InStep

/-- What is said to an entry is what there is to be said after the earlier ones. -/
theorem answer (h : InStep initial limits earlier state) (entry : Entry) :
    (respond state entry).1 = lined (said initial limits earlier entry) := by
  cases entry with
  | blank => rfl
  | expression text =>
      rw [said, shown_eq (h.session.evalLine text).1, lined_shown]
      rfl
  | command c =>
      cases c with
      | definitions =>
          have hlisted := congrArg lined (listed_eq (h.session.definitions []))
          rw [lined_listed, lined_listed] at hlisted
          rw [said, lined_listed]
          exact hlisted.symm
      | showStrategy =>
          have hstrategy : state.session.strategy = active initial earlier := by
            rw [← h.session.strategy, strategy_rebuilt]
          rw [Repl.respond, said, hstrategy]
          cases active initial earlier <;> exact (lined_singleton _).symm
      | switch name =>
          by_cases hname : name = "env" ∨ name = "subst"
          · rw [said, if_pos hname, lined_singleton]
            rcases hname with rfl | rfl <;> rfl
          · obtain ⟨henv, hsubst⟩ := not_or.1 hname
            rw [Repl.respond, ofName?_of_ne henv hsubst, said, if_neg hname, lined_singleton]
            rfl
      | help => rfl
      | reset | quit | unknown => exact (lined_singleton _).symm

/-- An entry that chooses no strategy and is not told to forget leaves nothing to be
remembered besides the expression that it may be. -/
theorem kept (h : InStep initial limits earlier state) {entry : Entry}
    (hstrategy : entry.strategy? = none) (hforgets : entry.forgets = false)
    (hexpression : entry.expression? = none) :
    InStep initial limits (earlier ++ [entry]) state where
  config := by rw [active_append hstrategy, h.config]
  session := by
    rw [rebuilt, active_append hstrategy, remembered_append hforgets, hexpression,
      Option.toList_none, List.append_nil]
    exact h.session

/-- Every entry that does not quit keeps the conversation in step. -/
theorem respond (h : InStep initial limits earlier state) {entry : Entry}
    (hentry : entry ≠ .command .quit) :
    ∃ next, (respond state entry).2 = some next ∧
      InStep initial limits (earlier ++ [entry]) next := by
  cases entry with
  | blank => exact ⟨state, rfl, h.kept rfl rfl rfl⟩
  | expression text =>
      refine ⟨_, rfl, ?_, ?_⟩
      · rw [active_append rfl]
        exact h.config
      · rw [rebuilt, active_append rfl, remembered_append rfl, Session.after_append]
        exact (h.session.evalLine text).2
  | command c =>
      cases c with
      | help | definitions | showStrategy | unknown => exact ⟨state, rfl, h.kept rfl rfl rfl⟩
      | quit => exact absurd rfl hentry
      | reset =>
          have hreset := state.session.reset_alike
          rw [← h.session.strategy, ← h.session.limits, strategy_rebuilt, limits_rebuilt]
            at hreset
          refine ⟨_, rfl, ?_, ?_⟩
          · rw [active_append rfl]
            exact h.config
          · rw [rebuilt, active_append rfl, remembered_append_of_forgets rfl]
            exact hreset
      | switch name =>
          have hforgets := forgets_switch name
          have hname := ofName?_eq name
          cases hstrategy : (Entry.command (.switch name)).strategy? with
          | none =>
              rw [hstrategy] at hname hforgets
              exact ⟨state, by rw [Repl.respond, hname], h.kept hstrategy hforgets rfl⟩
          | some strategy =>
              rw [hstrategy] at hname hforgets
              refine ⟨.start ⟨strategy, limits⟩, ?_, ?_, ?_⟩
              · rw [Repl.respond, hname, h.config]
              · rw [active_append_of_some hstrategy]
                rfl
              · rw [rebuilt, active_append_of_some hstrategy,
                  remembered_append_of_forgets hforgets]
                exact .refl _

/-- What is printed is what there is to be said to the entries. -/
theorem converse (h : InStep initial limits earlier state) {texts : List (List Char)}
    {entries : List Entry} (hreads : Forall₂ Reads texts entries) :
    converse state (texts.map .line ++ [.ended]) =
      { out := lined (transcript initial limits earlier entries) } := by
  induction hreads generalizing state earlier with
  | nil => exact congrArg (fun out : String => { out : Report }) (lined_singleton _).symm
  | @cons text entry texts entries hentry _ ih =>
      have hanswer := h.answer entry
      rw [List.map_cons, List.cons_append, Repl.converse, turn, reads_iff.1 hentry, transcript,
        lined_append, ← hanswer]
      by_cases hquit : entry = .command .quit
      · rw [if_pos hquit, hquit]
        rfl
      · obtain ⟨next, hnext, hin⟩ := h.respond hquit
        have hrespond : Repl.respond state entry = ((Repl.respond state entry).1, some next) :=
          Prod.ext rfl hnext
        rw [if_neg hquit, hrespond]
        dsimp only
        rw [ih hin]
        rfl

end InStep

/-! ## Single deliveries -/

theorem respond_same {entry : Entry} {next : State} (hforgets : entry.forgets = false)
    (hexpression : entry.expression? = none) (h : (respond state entry).2 = some next) :
    next = state := by
  cases entry with
  | blank => exact (Option.some.inj h).symm
  | expression => cases hexpression
  | command c =>
      cases c with
      | help | definitions | showStrategy | unknown => exact (Option.some.inj h).symm
      | reset => cases hforgets
      | quit => cases h
      | switch name =>
          rw [forgets_switch, Option.isSome_eq_false_iff, Option.isNone_iff_eq_none] at hforgets
          rw [respond, ofName?_eq, hforgets] at h
          exact (Option.some.inj h).symm

/-- An entry that makes nothing forgotten keeps the configuration, the strategy and
every definition, and unless it is an expression it changes nothing at all. -/
theorem respond_keeps {entry : Entry} {next : State} (hforgets : entry.forgets = false)
    (h : (respond state entry).2 = some next) :
    next.config = state.config ∧ next.session.strategy = state.session.strategy ∧
      state.session.definitions.Within next.session.definitions ∧
      (entry.expression? = none → next = state) := by
  cases entry with
  | expression text =>
      obtain rfl := Option.some.inj h
      have hlater := state.session.later_evalLine text
      exact ⟨rfl, hlater.strategy_eq, hlater.definitions, nofun⟩
  | blank | command =>
      obtain rfl := respond_same hforgets rfl h
      exact ⟨rfl, rfl, fun _ hx => hx, fun _ => rfl⟩

/-- The conversation ends with a line that is read as a command to quit. -/
theorem converse_append_quit {text : List Char} (htext : Reads text (.command .quit))
    (state : State) (before after : List Delivery) :
    converse state (before ++ .line text :: after) = converse state (before ++ [.line text]) := by
  induction before generalizing state with
  | nil =>
      have hturn : turn state (.line text) = ({ out := farewell }, none) := by
        rw [turn, reads_iff.1 htext]
        rfl
      rw [List.nil_append, List.nil_append, converse, hturn, converse, hturn]
  | cons delivery before ih =>
      rw [List.cons_append, List.cons_append, converse, converse]
      rcases turn state delivery with ⟨report, _ | next⟩
      · rfl
      · dsimp only
        rw [ih next]

/-- Whatever editor delivers lines one by one, and whatever the command line asked
for: lines are read as entries, each as exactly one, and what is printed is their
transcript, in which each is answered as in a new session of the strategy that was
chosen last, given the expressions since definitions were last forgotten. An entry
that is not told to forget keeps the strategy and every definition, and changes
nothing unless it is an expression. Nothing that is delivered after a command to
quit has any effect. -/
theorem forgets_when_told :
    (∀ text, ∃! entry, Reads text entry) ∧
    (∀ (editor : Editor) (o : Options) (lines : List (List Char)) (entries : List Entry),
      editor.OneByOne lines → Forall₂ Reads lines entries →
        conversation o (editor lines) =
          { out := banner ++ lined (transcript (o.strategy.getD .lexical)
              { depth := o.depth.getD Scoping.defaultDepth } [] entries) }) ∧
    (∀ state text entry next, Reads text entry → entry.forgets = false →
      (turn state (.line text)).2 = some next →
        next.config = state.config ∧ next.session.strategy = state.session.strategy ∧
          state.session.definitions.Within next.session.definitions ∧
          (entry.expression? = none → next = state)) ∧
    ∀ state before text after, Reads text (.command .quit) →
      converse state (before ++ .line text :: after) = converse state (before ++ [.line text]) := by
  refine ⟨fun text => ?_, fun editor o lines entries heditor hreads => ?_,
    fun state text entry next htext hentry hnext => ?_,
    fun state before text after htext => converse_append_quit htext state before after⟩
  · exact ⟨Entry.parse text, reads_iff.2 rfl, fun entry h => (reads_iff.1 h).symm⟩
  · have hlimits : o.limits = { depth := o.depth.getD Scoping.defaultDepth } := by
      rw [Options.limits]
      cases o.depth <;> rfl
    have hstart := inStep_start (o.strategy.getD .lexical)
      { depth := o.depth.getD Scoping.defaultDepth }
    rw [Editor.OneByOne] at heditor
    rw [conversation, heditor, Config.ofOptions, hlimits, Strategy.standard,
      hstart.converse hreads]
    rfl
  · rw [turn, reads_iff.1 htext] at hnext
    exact respond_keeps hentry hnext

/-! ## A conversation -/

/-- A definition, a line that fails, a change of the strategy, and a line after
`:exit`. -/
def defineAndLeave : List (List Char) :=
  ["(define x #t)", "(set! y x)", ":env", " :strategy  env", ":env", ":exit", ":env"].map
    String.toList

/-- What the lines of `defineAndLeave` are. -/
def defineAndLeaveEntries : List Entry :=
  [.expression "(define x #t)", .expression "(set! y x)", .command .definitions,
    .command (.switch "env"), .command .definitions, .command .quit, .command .definitions]

theorem reads_defineAndLeave : Forall₂ Reads defineAndLeave defineAndLeaveEntries := by
  have hparse : defineAndLeave.map Entry.parse = defineAndLeaveEntries := rfl
  rw [← hparse, List.forall₂_map_right_iff]
  exact List.forall₂_same.2 fun _ _ => reads_iff.2 rfl

theorem transcript_defineAndLeave : transcript .textual {} [] defineAndLeaveEntries =
    ["Error: Unbound variable: y", "  x = #t", "Switched to env (definitions cleared).",
      "No definitions.", "Goodbye!"] := by
  let defines := (Session.start .textual {}).evalLine "(define x #t)"
  let sets := defines.2.evalLine "(set! y x)"
  have hsaid : transcript .textual {} [] defineAndLeaveEntries =
      shown defines.1 ++ (shown sets.1 ++ (listed sets.2.definitions ++
        "Switched to env (definitions cleared)." ::
          (listed (Session.start .lexical {}).definitions ++ ["Goodbye!"]))) := rfl
  rw [hsaid]
  dsimp only [sets, defines]
  rw [evalLine_define, evalLine_set]
  rfl

/-- The line that fails keeps `x`, and `:env` is not answered once `:exit` was
typed. -/
theorem forgets_when_told_exit :
    Editor.OneByOne typing defineAndLeave ∧ Forall₂ Reads defineAndLeave defineAndLeaveEntries ∧
      conversation { strategy := some .textual } (typing defineAndLeave) =
        { out := banner ++ lined ["Error: Unbound variable: y", "  x = #t",
            "Switched to env (definitions cleared).", "No definitions.", "Goodbye!"] } ∧
      (Reads "(set! y x)".toList (.expression "(set! y x)") ∧
        (turn ⟨⟨.textual, {}⟩, withX 1⟩ (.line "(set! y x)".toList)).2 =
          some ⟨⟨.textual, {}⟩, withX 2⟩ ∧
        (withX 1).definitions.Within (withX 2).definitions) ∧
      Reads ":exit".toList (.command .quit) ∧
      converse (.start ⟨.textual, {}⟩)
          ([.line "(define x #t)".toList] ++ .line ":exit".toList :: [.line ":env".toList]) =
        converse (.start ⟨.textual, {}⟩)
          ([.line "(define x #t)".toList] ++ [.line ":exit".toList]) := by
  have hdeliver : Editor.OneByOne typing defineAndLeave := typing_oneByOne (by decide)
  have hset : Reads "(set! y x)".toList (.expression "(set! y x)") := reads_iff.2 rfl
  have hexit : Reads ":exit".toList (.command .quit) := reads_iff.2 rfl
  have hnext : (turn ⟨⟨.textual, {}⟩, withX 1⟩ (.line "(set! y x)".toList)).2 =
      some ⟨⟨.textual, {}⟩, withX 2⟩ := by
    have hparse : Entry.parse "(set! y x)".toList = .expression "(set! y x)" := rfl
    rw [turn, hparse, respond, evalLine_set]
  have hsaid := forgets_when_told.2.1 typing { strategy := some .textual } defineAndLeave
    defineAndLeaveEntries hdeliver reads_defineAndLeave
  refine ⟨hdeliver, reads_defineAndLeave, hsaid.trans ?_, ⟨hset, hnext, ?_⟩, hexit, ?_⟩
  · exact congrArg (fun texts => { out := banner ++ lined texts : Report })
      transcript_defineAndLeave
  · exact (forgets_when_told.2.2.1 _ _ _ _ hset rfl hnext).2.2.1
  · exact forgets_when_told.2.2.2 _ _ _ _ hexit

end TwinScheme.Console.Repl
