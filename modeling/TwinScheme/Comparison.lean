import TwinScheme.Host.Basic
import TwinScheme.Observation
import TwinScheme.Program

/-!
# Comparing with another implementation

A program file is run here and by a reference command, which is given the
file's name and prints its result. `Comparison.ofFile` says what either side
observed; `Failure` is everything that can keep it from an answer.
-/

namespace TwinScheme

/-- Why there is nothing to compare. -/
inductive Failure where
  | host (fault : HostFault)
  /-- The reference command reported a failure. -/
  | reference (command complaint : String)
  /-- A result that is neither a boolean nor an integer. -/
  | undecodable (text : String)
  | emptyProgram
  | program (error : Error)

/-- The wording of a failure. -/
def Failure.message : Failure → String
  | host fault => "I/O error: " ++ fault.message
  | reference command complaint => s!"reference `{command}` failed: {complaint}"
  | undecodable text => "cannot decode " ++ Text.quote text ++ " as a boolean or integer"
  | emptyProgram => "program has no expressions"
  | program error => error.message

/-- What a reference command observes about a file. -/
def Host.observe (host : Host) (command path : String) : Except Failure Observation := do
  let finished ← (host.run command path).mapError .host
  if finished.succeeded then
    (Observation.ofText (Text.decodeLossy finished.output)).mapError .undecodable
  else
    .error (.reference command (Text.trimmed (Text.decodeLossy finished.complaint)))

/-- The same file, run both ways. -/
structure Comparison where
  path : String
  strategy : Strategy
  actual : Observation
  expected : Observation

/-- Whether both ways agree. -/
def Comparison.isMatch (c : Comparison) : Bool :=
  c.actual == c.expected

/-- Runs a file in a new session and compares its result with the reference. -/
def Comparison.ofFile (host : Host) (path : String) (strategy : Strategy) (limits : Limits)
    (reference : String) : Except Failure Comparison := do
  let source ← (host.readText path).mapError .host
  match (Program.run (Session.start strategy limits) source).1 with
  | .error e => .error (.program e)
  | .ok none => .error .emptyProgram
  | .ok (some v) =>
    let actual ← (Observation.ofValue v).mapError .undecodable
    let expected ← host.observe reference path
    return ⟨path, strategy, actual, expected⟩

end TwinScheme
