import TwinScheme.Console.Options
import TwinScheme.Text.Blank

/-!
# The interactive interpreter

A line is blank, a command, which starts with a colon, or an expression. An
expression is evaluated in the session of the moment and its result printed,
unless it is unspecified. Two commands change the session: `:reset` forgets the
definitions and keeps the strategy, and `:strategy` with the name of a strategy
changes the configuration and starts a session by it. The conversation ends with
`:quit`, `:exit` or the end of the input.

Lines come from an editor. What it makes of the keys that are typed is its own
affair: a conversation is about what is delivered, and there may be any editor.
-/

namespace TwinScheme.Console.Repl

/-! ## Entries -/

/-- What a command asks for. -/
inductive Command where
  | help
  | definitions
  | reset
  | showStrategy
  | switch (name : String)
  | quit
  | unknown (text : String)
  deriving DecidableEq, Repr

/-- Reads a command from the text after its colon. -/
def Command.parse (text : List Char) : Command :=
  match (Text.words text).map String.ofList with
  | ["help"] => help
  | ["env"] => definitions
  | ["reset"] => reset
  | ["strategy"] => showStrategy
  | ["strategy", name] => switch name
  | ["quit"] | ["exit"] => quit
  | _ => unknown (String.ofList text)

/-- What a line is. -/
inductive Entry where
  | blank
  | command (c : Command)
  | expression (text : String)
  deriving DecidableEq, Repr

/-- Reads a line. Blanks at its ends do not count. -/
def Entry.parse (text : List Char) : Entry :=
  match Text.trim text with
  | [] => blank
  | ':' :: rest => command (Command.parse rest)
  | cs => expression (String.ofList cs)

/-! ## Answers -/

/-- The lines that answer `:help`. -/
def helpLines : List String :=
  ["Commands:",
    "  :help            - Show this help message",
    "  :env             - Show user definitions",
    "  :strategy        - Show the active evaluator",
    "  :strategy env    - Switch to environment-chain evaluation",
    "  :strategy subst  - Switch to substitution evaluation",
    "  :reset           - Forget all definitions",
    "  :quit, :exit     - Exit the interpreter",
    "",
    "Supported Scheme features:",
    "  Numbers: 42, 2.5, -5    Booleans: #t, #f",
    "  Special forms: quote, define, set!, if, cond, begin, let, lambda",
    "  Arithmetic: + - * / abs round max min",
    "  Comparison: = < > <= >=",
    "  Lists: car cdr cons append list length map",
    "  Predicates: list? null? number? symbol? procedure? not eq? equal?",
    "",
    "Examples:",
    "  (define square (lambda (x) (* x x)))",
    "  (square 5)",
    "  (let ((x 5)) (* x x))",
    "  (cond ((> 1 2) 1) (else 2))"]

/-- The answer to `:env`. -/
def definitionsText (b : Bindings) : String :=
  if b.entries.isEmpty then line "No definitions."
  else String.join (b.entries.map fun (name, v) => line s!"  {name} = {v.display}")

/-- The answer to an expression. -/
def resultText : Except Error Value → String
  | .ok .unspecified => ""
  | .ok v => line v.display
  | .error e => line ("Error: " ++ e.message)

/-- The last words. -/
def farewell : String :=
  line "Goodbye!"

/-- What sessions are started with. -/
structure Config where
  strategy : Strategy
  limits : Limits

/-- The configuration that a command line asks for. -/
def Config.ofOptions (o : Options) : Config where
  strategy := o.strategy.getD .standard
  limits := o.limits

/-- A new session. -/
def Config.session (config : Config) : Session :=
  Session.start config.strategy config.limits

/-- A conversation between two lines. -/
structure State where
  config : Config
  session : Session

/-- A conversation at its start. -/
def State.start (config : Config) : State where
  config := config
  session := config.session

/-- The answer to an entry, and the state after it; without one the conversation
is over. -/
def respond (state : State) : Entry → String × Option State
  | .blank => ("", some state)
  | .command .help => (String.join (helpLines.map line), some state)
  | .command .definitions => (definitionsText state.session.definitions, some state)
  | .command .reset =>
    (line "Definitions cleared.", some { state with session := state.session.reset })
  | .command .showStrategy => (line state.session.strategy.name, some state)
  | .command (.switch name) =>
    match Strategy.ofName? name with
    | some strategy =>
      (line s!"Switched to {name} (definitions cleared).",
        some (.start { state.config with strategy := strategy }))
    | none => (line s!"Unknown strategy: {name} (expected env or subst)", some state)
  | .command .quit => (farewell, none)
  | .command (.unknown text) => (line s!"Unknown command :{text}; try :help", some state)
  | .expression text =>
    let (result, session) := state.session.evalLine text
    (resultText result, some { state with session := session })

/-! ## Deliveries -/

/-- What it comes to when the editor is asked for a line. -/
inductive Delivery where
  | line (text : List Char)
  | interrupted
  /-- The input is at its end. -/
  | ended
  /-- There is an error, which is reported. -/
  | failed (complaint : String)
  /-- The editor itself breaks down. -/
  | crashed (complaint : String)
  deriving DecidableEq, Repr

/-- What is delivered of the lines of the input, one request after another. -/
abbrev Editor := List (List Char) → List Delivery

/-- An editor that delivers the lines one by one as they are, and then the end. -/
def Editor.OneByOne (editor : Editor) (lines : List (List Char)) : Prop :=
  editor lines = lines.map .line ++ [.ended]

/-- What a delivery leads to, and the state after it, if the conversation goes on. -/
def turn (state : State) : Delivery → Report × Option State
  | .line text =>
    let (answer, next) := respond state (Entry.parse text)
    ({ out := answer }, next)
  | .interrupted =>
    ({ out := line "Interrupted. Use Ctrl+D or :quit to exit." }, some state)
  | .ended => ({ out := farewell }, none)
  | .failed complaint => ({ code := 1, err := line ("Error: " ++ complaint) }, none)
  | .crashed complaint => ({ code := 101, err := line complaint }, none)

/-- The conversation that deliveries lead to. It ends with the last of them at the
latest. -/
def converse (state : State) : List Delivery → Report
  | [] => (turn state .ended).1
  | delivery :: rest =>
    match turn state delivery with
    | (report, none) => report
    | (report, some next) => report.andThen (converse next rest)

/-- What is printed before the first line is read. -/
def banner : String :=
  line "schemelet 0.1.0" ++
    line "Type expressions to evaluate them, :help for commands, Ctrl+D to exit." ++ line ""

/-- The whole conversation that a command line asks for. -/
def conversation (o : Options) (deliveries : List Delivery) : Report :=
  { out := banner : Report }.andThen (converse (.start (.ofOptions o)) deliveries)

end TwinScheme.Console.Repl
