import TwinScheme.Lexical.Scoping
import TwinScheme.Textual.Scoping

/-!
# Sessions

A session evaluates one line after another under one of the two scoping
disciplines and remembers what was defined. A line is read up to the end of its
first datum. Reading and evaluating may fail; what a failing line had already
defined stays defined. After a reset nothing is defined, as when the session
started.
-/

namespace TwinScheme

/-- The two ways of binding names. -/
inductive Strategy where
  /-- Chains of frames. -/
  | lexical
  /-- Substitution of arguments for parameters. -/
  | textual
  deriving DecidableEq, Repr, Inhabited

namespace Strategy

/-- The name by which a user chooses a strategy. -/
def name : Strategy → String
  | lexical => "env"
  | textual => "subst"

/-- Both strategies. -/
def all : List Strategy :=
  [lexical, textual]

/-- The strategy that is used if none is chosen. -/
def standard : Strategy :=
  lexical

/-- The strategy of a name. -/
def ofName? (name : String) : Option Strategy :=
  all.find? (·.name == name)

/-- Reads a user's choice, if asked to without regard to the case of its ASCII
letters; an unknown name is an error with that text. -/
def choose (ignoreCase : Bool) (name : String) : Except String Strategy :=
  let wanted := if ignoreCase then String.ofList (name.toList.map Char.toLower) else name
  match ofName? wanted with
  | some strategy => .ok strategy
  | none => .error ("invalid variant: " ++ name)

end Strategy

/-- How deep lists and evaluations may nest. -/
structure Limits where
  nesting : Nat := Datum.defaultNesting
  depth : Nat := Scoping.defaultDepth
  deriving DecidableEq, Repr, Inhabited

/-- What has been defined so far, under one of the strategies. -/
inductive Session where
  | lexical (limits : Limits) (top : Environment) (memory : Memory Heap)
  | textual (limits : Limits) (memory : Memory Bindings)

namespace Session

/-- A session in which nothing is defined. -/
def start (strategy : Strategy) (limits : Limits) : Session :=
  match strategy with
  | .lexical =>
    let (top, heap) := Heap.empty.topLevel
    .lexical limits top ⟨0, heap⟩
  | .textual => .textual limits ⟨0, ∅⟩

/-- The strategy that a session was started with. -/
def strategy : Session → Strategy
  | lexical .. => .lexical
  | textual .. => .textual

/-- The limits that a session was started with. -/
def limits : Session → Limits
  | lexical limits .. => limits
  | textual limits _ => limits

/-- Forgets every definition. What was made before is still in memory, and new
things are made beside it; but no name leads there any more. -/
def reset : Session → Session
  | lexical limits _ memory =>
    let (top, heap) := memory.bound.topLevel
    .lexical limits top ⟨memory.supply, heap⟩
  | textual limits memory => .textual limits ⟨memory.supply, ∅⟩

/-- What the user has defined. -/
def definitions : Session → Bindings
  | lexical _ top memory => memory.bound.locals top
  | textual _ memory => memory.bound

/-- Evaluates a datum. -/
def evalDatum (s : Session) (d : Datum) : Except Error Value × Session :=
  match s with
  | .lexical limits top memory =>
    let (result, memory) := Eval.runFrom memory do
      Scoping.lexical.evaluate limits.depth top (← Eval.supply d.toValue)
    (result, .lexical limits top memory)
  | .textual limits memory =>
    let (result, memory) := Eval.runFrom memory do
      Scoping.textual.evaluate limits.depth () (← Eval.supply d.toValue)
    (result, .textual limits memory)

/-- Reads the first datum of a line and evaluates it. -/
def evalLine (s : Session) (line : String) : Except Error Value × Session :=
  match Datum.parse s.limits.nesting line with
  | .error fault => (.error (.read fault), s)
  | .ok d => s.evalDatum d

end Session

end TwinScheme
