import TwinScheme.Comparison
import TwinScheme.Console.Options

/-!
# Running a program file

The tool evaluates a program and prints its result, if it has one. A failure is
reported as what was being attempted and the chain of its causes: a single
cause stands indented below the heading, several are numbered.
-/

namespace TwinScheme.Console

/-- The causes of an error, from the outermost inwards: a reader fault is named
by its kind and again by itself. -/
def causes : Error → List String
  | .read fault => [(Error.read fault).message, fault.message]
  | error => [error.message]

/-- Causes numbered from a given number. -/
def numbered (next : Nat) : List String → List String
  | [] => []
  | cause :: rest => s!"    {next}: {cause}" :: numbered (next + 1) rest

/-- The report of a failed attempt. -/
def complaint (attempt : String) (causes : List String) : String :=
  let listed :=
    match causes with
    | [cause] => [Text.indent "    " cause]
    | causes => numbered 0 causes
  line (s!"Error: {attempt}\n\nCaused by:\n" ++ "\n".intercalate listed)

/-- A tool that has failed. -/
def failed (attempt : String) (causes : List String) : Report :=
  { code := 1, err := complaint attempt causes }

/-- Runs a file. -/
def runFile (host : Host) (o : Options) (path : String) : Report :=
  match host.readText path with
  | .error fault => failed ("reading " ++ path) [fault.message]
  | .ok source =>
    match (Program.run (Session.start (o.strategy.getD .standard) o.limits) source).1 with
    | .error e => failed ("evaluating " ++ path) (causes e)
    | .ok none => {}
    | .ok (some v) => { out := line v.display }

/-- The tool `run`. -/
def run (host : Host) (args : List String) : Report :=
  match Options.parse {} args with
  | some o =>
    match o.files with
    | [path] => runFile host o path
    | _ => misuse "run [--strategy env|subst] [--max-depth N] FILE"
  | none => misuse "run [--strategy env|subst] [--max-depth N] FILE"

end TwinScheme.Console
