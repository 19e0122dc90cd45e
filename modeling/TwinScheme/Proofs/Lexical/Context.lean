import TwinScheme.Proofs.Evaluator.Shorthand
import TwinScheme.Proofs.Evaluator.Unwinding
import TwinScheme.Proofs.Reader.Names
import TwinScheme.Proofs.Session.Holdings

/-!
# The context of an error

Every call that an error leaves has a say in it. It looks for a context in the wording
of the error and adds its own body if there is none; so the first call on the way out
decides, and that is the innermost one. What could go wrong is that a wording reads as
if it had a context. A context starts a new line, and no wording does: it is made of
names that the reader made of atoms, and no atom has a line feed in it.
-/

namespace TwinScheme

/-! ## Texts of one line -/

/-- A text without a line feed. -/
structure Text.OneLine (text : String) : Prop where
  not_mem : '\n' ∉ text.toList

namespace Text.OneLine

variable {s t : String}

theorem append (hs : OneLine s) (ht : OneLine t) : OneLine (s ++ t) := by
  refine ⟨?_⟩
  rw [String.toList_append, List.mem_append, not_or]
  exact ⟨hs.not_mem, ht.not_mem⟩

theorem intercalate {texts : List String} (hs : OneLine s) (h : ∀ t ∈ texts, OneLine t) :
    OneLine (s.intercalate texts) := by
  induction texts with
  | nil => exact ⟨List.not_mem_nil⟩
  | cons t texts ih =>
      obtain ⟨ht, htexts⟩ := List.forall_mem_cons.1 h
      cases texts with
      | nil =>
          rw [String.intercalate_singleton]
          exact ht
      | cons u texts =>
          rw [String.intercalate_cons_cons]
          exact (ht.append hs).append (ih htexts)

theorem of_isAtom (h : Token.IsAtom s.toList) : OneLine s :=
  ⟨fun hmem => absurd (h.plain _ hmem) (by decide)⟩

theorem repr (n : Nat) : OneLine (Nat.repr n) := by
  refine ⟨fun hmem => ?_⟩
  rw [Nat.toList_repr] at hmem
  exact absurd (Nat.isDigit_of_mem_toDigits (by decide) (by decide) hmem) (by decide)

end Text.OneLine

namespace Text

/-- How often a text stands in another. -/
def occurrences (part text : List Char) : Nat :=
  text.tails.countP part.isPrefixOf

variable {c : Char} {part text tail : List Char}

theorem occurrences_cons_of_ne {d : Char} (h : c ≠ d) (text : List Char) :
    occurrences (c :: part) (d :: text) = occurrences (c :: part) text := by
  simp [occurrences, List.isPrefixOf, h]

theorem occurrences_append (h : c ∉ text) (tail : List Char) :
    occurrences (c :: part) (text ++ tail) = occurrences (c :: part) tail := by
  induction text with
  | nil => rfl
  | cons d text ih =>
      obtain ⟨hne, htext⟩ := not_or.1 (List.mem_cons.not.1 h)
      rw [List.cons_append, occurrences_cons_of_ne hne, ih htext]

theorem occurrences_eq_zero (h : c ∉ text) : occurrences (c :: part) text = 0 := by
  rw [← List.append_nil text, occurrences_append h]
  rfl

/-- A text that starts with its first character nowhere else stands once in what it
starts, if that character is not in the rest either. -/
theorem occurrences_self_append (h : c ∉ part ++ tail) :
    occurrences (c :: part) (c :: part ++ tail) = 1 := by
  have hrest : occurrences (c :: part) (part ++ tail) = 0 := occurrences_eq_zero h
  have hfirst : (c :: part).isPrefixOf (c :: (part ++ tail)) = true := by simp
  rw [occurrences] at hrest ⊢
  rw [List.cons_append, List.tails, List.countP_cons_of_pos hfirst, hrest]

theorem occurs_eq_false (h : c ∉ text) : occurs (c :: part) text = false := by
  induction text with
  | nil => rfl
  | cons d text ih =>
      obtain ⟨hne, htext⟩ := not_or.1 (List.mem_cons.not.1 h)
      have hstart : startsWith (d :: text) (c :: part) = false := by
        simp [startsWith, List.isPrefixOf, hne]
      rw [occurs, hstart, ih htext]
      rfl

end Text

open Text (OneLine)

theorem Primitive.name_oneLine (p : Primitive) : OneLine p.name := by
  cases p <;> exact ⟨by decide⟩

theorem Keyword.name_oneLine (k : Keyword) : OneLine k.name := by
  cases k <;> exact ⟨by decide⟩

theorem Number.floatText_oneLine (x : Float) : OneLine (Number.floatText x) := by
  cases hx : x.isNaN with
  | true =>
      rw [Number.floatText, if_pos hx]
      exact ⟨by decide⟩
  | false => exact .of_isAtom (Number.floatText_isFloatText hx).isAtom

section

variable {L : Ledger} (hnames : ∀ x, L.names x → OneLine x)

include hnames

/-- What is shown of a value is a line if the names in it are. -/
theorem Value.Recorded.display_oneLine {v : Value} (h : v.Recorded L) : OneLine v.display := by
  induction h with
  | @constant v hc =>
      cases v with
      | int n => exact .of_isAtom (Number.integerText_isAtom _)
      | float x => exact Number.floatText_oneLine x
      | bool b => cases b <;> exact ⟨by decide⟩
      | primitive p => exact (OneLine.append ⟨by decide⟩ p.name_oneLine).append ⟨by decide⟩
      | unspecified => exact ⟨by decide⟩
      | _ => cases hc
  | symbol hx => exact hnames _ hx
  | @list i items _ _ ih =>
      rw [Value.display, Value.displayAll_eq_map]
      refine (OneLine.append ⟨by decide⟩ (.intercalate ⟨by decide⟩ fun t ht => ?_)).append
        ⟨by decide⟩
      obtain ⟨v, hv, rfl⟩ := List.mem_map.1 ht
      exact ih v hv
  | closure | lambda =>
      rw [Value.display]
      exact ⟨by decide⟩

theorem EvalFault.message_oneLine {fault : EvalFault} (h : ∀ v ∈ fault.shown, v.Recorded L) :
    OneLine fault.message := by
  cases fault with
  | tooDeep limit => exact (OneLine.append ⟨by decide⟩ (.repr limit)).append ⟨by decide⟩
  | repeatedParameter name =>
      have hname := (List.forall_mem_singleton.1 h).display_oneLine hnames
      exact .append ⟨by decide⟩ hname
  | overflow p =>
      refine .append ⟨by decide⟩ ?_
      cases p <;> exact ⟨by decide⟩
  | emptyList p => exact .append p.name_oneLine ⟨by decide⟩
  | _ => exact ⟨by decide⟩

theorem TypeFault.message_oneLine {fault : TypeFault} (h : ∀ v ∈ fault.shown, v.Recorded L) :
    OneLine fault.message := by
  cases fault with
  | needsNumbers p | needsNumber p | needsList p | needsLists p =>
      exact .append p.name_oneLine ⟨by decide⟩
  | needsProcedure p got =>
      have hgot := (List.forall_mem_singleton.1 h).display_oneLine hnames
      exact (OneLine.append p.name_oneLine ⟨by decide⟩).append hgot
  | targetNotSymbol form => exact .append form.name_oneLine ⟨by decide⟩
  | notApplicable | parameterNotSymbol | badBinding | bindingNotSymbol | clauseNotList =>
      exact .append ⟨by decide⟩ ((List.forall_mem_singleton.1 h).display_oneLine hnames)
  | _ => exact ⟨by decide⟩

end

/-! ## The first call on the way out -/

namespace Error

/-- Whether an error of this kind may have a context. -/
def Kind.takesContext : Kind → Bool
  | .eval | .type => true
  | .read | .unbound | .arity => false

/-- An error put in a context, if there is one and the error may have one. -/
def inContext : Option Value → Error → Error
  | some body, eval fault none => eval fault (some body)
  | some body, type fault none => type fault (some body)
  | _, e => e

theorem inContext_of_takesContext_eq_false {e : Error} (h : e.kind.takesContext = false)
    (context : Option Value) : e.inContext context = e := by
  cases e with
  | eval | type => cases h
  | _ => cases context <;> rfl

theorem kind_inContext (e : Error) (context : Option Value) :
    (e.inContext context).kind = e.kind := by
  rcases context with _ | _ <;> rcases e with _ | ⟨_, _ | _⟩ | ⟨_, _ | _⟩ | _ | _ <;> rfl

theorem inContext_none (e : Error) : e.inContext none = e := by
  cases e <;> rfl

theorem contextMark_toList : contextMark.toList = '\n' :: "  Context:".toList := by
  decide

theorem hasContext_eq_false {text : String} (h : OneLine text) : hasContext text = false := by
  rw [hasContext, contextMark_toList]
  exact Text.occurs_eq_false h.not_mem

/-- An error that has a context keeps it. -/
theorem Bare.within_inContext {p : Value → Prop} {e : Error} (he : e.Bare p)
    (body body' : Value) : (e.inContext (some body)).within body' = e.inContext (some body) := by
  cases he with
  | unbound x => rfl
  | refusal he => cases he <;> rfl

theorem Bare.message_inContext {p : Value → Prop} {e : Error} (he : e.Bare p)
    (htakes : e.kind.takesContext = true) (context : Option Value) :
    (e.inContext context).message = e.message ++ contextText context := by
  cases context with
  | none => rw [inContext_none, contextText, String.append_empty]
  | some body =>
      cases he with
      | unbound x => cases htakes
      | refusal he =>
          cases he with
          | @eval fault =>
              change "EvaluationError: " ++ fault.message ++ contextText (some body) =
                "EvaluationError: " ++ fault.message ++ "" ++ contextText (some body)
              rw [String.append_empty]
          | @type fault =>
              change "Type error: " ++ fault.message ++ contextText (some body) =
                "Type error: " ++ fault.message ++ "" ++ contextText (some body)
              rw [String.append_empty]
          | arity => cases htakes

section

variable {L : Ledger} {e : Error} (hnames : ∀ x, L.names x → OneLine x)
  (he : e.Bare (·.Recorded L))

include hnames he

theorem Bare.within (body : Value) : e.within body = e.inContext (some body) := by
  cases he with
  | unbound x => rfl
  | refusal he =>
      cases he with
      | eval hshown =>
          rw [Error.within, hasContext_eq_false (EvalFault.message_oneLine hnames hshown)]
          rfl
      | type hshown =>
          rw [Error.within, hasContext_eq_false (TypeFault.message_oneLine hnames hshown)]
          rfl
      | arity => rfl

theorem Bare.message_oneLine (htakes : e.kind.takesContext = true) : OneLine e.message := by
  cases he with
  | unbound x => cases htakes
  | refusal he =>
      cases he with
      | eval hshown =>
          exact (OneLine.append ⟨by decide⟩ (EvalFault.message_oneLine hnames hshown)).append
            ⟨by decide⟩
      | type hshown =>
          exact (OneLine.append ⟨by decide⟩ (TypeFault.message_oneLine hnames hshown)).append
            ⟨by decide⟩
      | arity => cases htakes

end

end Error

namespace Machine

variable {σ ρ : Type}

/-- The body whose value a call waits for. -/
def Frame.body? : Frame ρ → Option Value
  | .call body => some body
  | _ => none

/-- The body of the innermost call in progress. -/
def State.innermostBody? (s : State σ ρ) : Option Value :=
  s.stack.findSome? Frame.body?

theorem State.Recorded.innermostBody {holds : σ → Value → Prop} {L : Ledger} {s : State σ ρ}
    (h : s.Recorded holds L) : ∀ body ∈ s.innermostBody?, body.Recorded L := by
  intro body hbody
  obtain ⟨frame, hframe, hcall⟩ := List.exists_of_findSome?_eq_some hbody
  cases frame with
  | call body' =>
      cases hcall
      exact h.stack _ hframe _ List.mem_cons_self
  | _ => cases hcall

theorem unwind_inContext {p : Value → Prop} {e : Error} (he : e.Bare p) (body : Value)
    (stack : List (Frame Environment)) :
    unwind Scoping.lexical stack (e.inContext (some body)) = e.inContext (some body) := by
  induction stack with
  | nil => rfl
  | cons frame stack ih =>
      cases frame with
      | call body' =>
          change unwind _ stack ((e.inContext (some body)).within body') = _
          rw [he.within_inContext, ih]
      | _ => exact ih

/-- The first call on the way out puts the error in its context, and no later one does. -/
theorem unwind_eq_inContext {L : Ledger} (hnames : ∀ x, L.names x → OneLine x) {e : Error}
    (he : e.Bare (·.Recorded L)) (stack : List (Frame Environment)) :
    unwind Scoping.lexical stack e = e.inContext (stack.findSome? Frame.body?) := by
  induction stack with
  | nil => exact (Error.inContext_none e).symm
  | cons frame stack ih =>
      cases frame with
      | call body =>
          -- the innermost call: from here on the error has a context
          change unwind _ stack (e.within body) = e.inContext (some body)
          rw [he.within hnames, unwind_inContext he]
      | _ => exact ih

end Machine

/-- How often a context is introduced in the message of an error. -/
theorem Error.Bare.occurrences_contextMark {L : Ledger} (hnames : ∀ x, L.names x → OneLine x)
    {e : Error} (he : e.Bare (·.Recorded L)) (htakes : e.kind.takesContext = true)
    {context : Option Value} (hcontext : ∀ v ∈ context, v.Recorded L) :
    Text.occurrences contextMark.toList (e.message ++ contextText context).toList =
      if context.isSome then 1 else 0 := by
  have hmessage := (he.message_oneLine hnames htakes).not_mem
  rw [String.toList_append, contextMark_toList, Text.occurrences_append hmessage]
  cases context with
  | none => rfl
  | some body =>
      have htail : OneLine ("  Context:" ++ " while evaluating " ++ body.display) :=
        (OneLine.append (OneLine.append ⟨by decide⟩ ⟨by decide⟩)
          ((hcontext body rfl).display_oneLine hnames))
      have hnot := htail.not_mem
      rw [String.toList_append, String.toList_append, List.append_assoc] at hnot
      rw [contextText, String.toList_append, String.toList_append, contextMark_toList,
        List.append_assoc]
      exact Text.occurrences_self_append hnot

/-- The names in what is read are lines. -/
theorem Datum.Readable.named {d : Datum} (h : d.Readable) : d.Named OneLine :=
  h.isNamed.imp fun _ hx => .of_isAtom hx.atom

namespace Holdings

/-- An evaluation that fails fails with the error that arose in it, in the context of the
innermost call that was in progress where it arose. The context is introduced once, at the
end of the message, if there was such a call, and otherwise not at all. Errors that take
no context are those that arose. -/
theorem failure_context {h : Holdings} (hh : Attained Datum.Readable h) {limit : Nat}
    {env : Environment} {expr : Value} {e : Error} {m : Memory Heap} (hexpr : h.Has expr)
    (hfails : Eval.runFrom ⟨h.supply, h.heap⟩ (Scoping.lexical.evaluate limit env expr) =
      (.error e, m)) :
    let start : Machine.State Heap Environment := ⟨.eval 0 env expr, [], ⟨h.supply, h.heap⟩⟩
    (∃ t raised, Machine.Raises Scoping.lexical limit start t raised) ∧
    ∀ t raised, Machine.Raises Scoping.lexical limit start t raised →
      e = raised.inContext t.innermostBody? ∧ e.kind = raised.kind ∧
      (e.kind.takesContext = false → e = raised) ∧
      (e.kind.takesContext = true →
        e.message = raised.message ++ Error.contextText t.innermostBody? ∧
        Text.occurrences Error.contextMark.toList e.message.toList =
          if t.innermostBody?.isSome then 1 else 0) := by
  intro start
  have hend : Machine.Reaches Scoping.lexical limit start ⟨.answer (.error e), [], m⟩ := by
    have hreaches := Machine.reaches_evaluate Scoping.lexical limit env expr ⟨h.supply, h.heap⟩
    rwa [hfails] at hreaches
  refine ⟨Machine.exists_raises rfl hend rfl, fun t raised hraises => ?_⟩
  obtain ⟨L, hL, hholdings⟩ := hh.recorded Keyword.name_oneLine fun _ hd => hd.named
  have hstart : start.Recorded Heap.HasValue L :=
    ⟨⟨hholdings.supply, hholdings.heap⟩,
      List.forall_mem_singleton.2 (hholdings.has hexpr), List.forall_mem_nil _⟩
  obtain ⟨L', hle, ht, hbare⟩ := hraises.recorded Scoping.lexical_keeping hstart
  have hnames : ∀ x, L'.names x → OneLine x := by
    rw [hle.names, hL]
    exact fun _ hx => hx
  have he : e = raised.inContext t.innermostBody? :=
    (hraises.eq_unwind hend rfl rfl).trans (Machine.unwind_eq_inContext hnames hbare t.stack)
  have hkind : e.kind = raised.kind := by rw [he, Error.kind_inContext]
  refine ⟨he, hkind, fun htakes => ?_, fun htakes => ?_⟩ <;> rw [hkind] at htakes
  · rw [he, Error.inContext_of_takesContext_eq_false htakes]
  · rw [he, hbare.message_inContext htakes]
    exact ⟨rfl, hbare.occurrences_contextMark hnames htakes ht.innermostBody⟩

/-- Inside of the call `((lambda (x) (x)) 1)` a number is called. -/
theorem failure_context_nonfunction :
    ∃ h env expr e m t raised, Attained Datum.Readable h ∧ h.Has expr ∧
      Eval.runFrom ⟨h.supply, h.heap⟩ (Scoping.lexical.evaluate 9 env expr) = (.error e, m) ∧
      Machine.Raises Scoping.lexical 9 ⟨.eval 0 env expr, [], ⟨h.supply, h.heap⟩⟩ t raised ∧
      t.innermostBody? = some (.list 1 [.symbol "x"]) ∧
      e.message = raised.message ++ Error.contextText t.innermostBody? ∧
      Text.occurrences Error.contextMark.toList e.message.toList = 1 := by
  let env := blank.heap.topLevel.1
  let body : Value := .list 1 [.symbol "x"]
  let expr : Value := .list 3 [.list 2 [.symbol "lambda", .list 0 [.symbol "x"], body], .int 1]
  let h := blank.opened.reading
    (.list [.list [.symbol "lambda", .list [.symbol "x"], .list [.symbol "x"]], .int 1])
  have hh : Attained Datum.Readable h :=
    (Relation.ReflTransGen.single .opens).tail (.reads ⟨8, "((lambda (x) (x)) 1)", rfl⟩)
  have hexpr : h.Has expr := .value List.mem_cons_self
  let raised : Error := .type (.notApplicable (.int 1)) none
  let start : Machine.State Heap Environment := ⟨.eval 0 env expr, [], ⟨h.supply, h.heap⟩⟩
  obtain ⟨e, m, hend⟩ : ∃ e m,
      Machine.Reaches Scoping.lexical 9 start ⟨.answer (.error e), [], m⟩ := ⟨_, _, 14, rfl⟩
  have hfails := hend.runFrom_evaluate
  obtain ⟨t, hraises, hbody⟩ : ∃ t, Machine.Raises Scoping.lexical 9 start t raised ∧
      t.innermostBody? = some body := ⟨_, ⟨rfl, _, ⟨12, rfl⟩, rfl, rfl⟩, rfl⟩
  obtain ⟨-, hkind, -, hcontext⟩ := (failure_context hh hexpr hfails).2 t raised hraises
  rw [hkind] at hcontext
  obtain ⟨hmessage, hoccurs⟩ := hcontext rfl
  rw [hbody] at hoccurs
  exact ⟨h, env, expr, e, m, t, raised, hh, hexpr, hfails, hraises, hbody, hmessage, hoccurs⟩

end Holdings

end TwinScheme
