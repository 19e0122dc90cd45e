import TwinScheme.Comparison
import TwinScheme.Console.Options

/-!
# Checking files against a reference

The tool runs every file under one strategy or under both, compares each result
with that of the reference command, and counts the checks that did not agree.
-/

namespace TwinScheme.Console

/-- One line for one check. -/
def verdict (path : String) : Except Failure Comparison → String
  | .ok c =>
    if c.isMatch then s!"✓ {path}: {c.actual.text}"
    else s!"✗ {path}: got {c.actual.text}, reference printed {c.expected.text}"
  | .error failure => s!"✗ {path}: {failure.message}"

/-- Whether a check succeeded. -/
def agrees : Except Failure Comparison → Bool
  | .ok c => c.isMatch
  | .error _ => false

/-- The checks of all files under one strategy. -/
def checks (host : Host) (o : Options) (strategy : Strategy) :
    List (String × Except Failure Comparison) :=
  o.files.map fun path => (path, Comparison.ofFile host path strategy o.limits o.reference)

/-- The section of the report on one strategy. -/
def sectionText (strategy : Strategy) (results : List (String × Except Failure Comparison)) :
    String :=
  line s!"--- {strategy.name} ---" ++
    String.join (results.map fun (path, result) => line (verdict path result)) ++ line ""

/-- The end of the report. -/
def summary (total failures : Nat) : String :=
  line "=== Summary ===" ++ line s!"Total checks: {total}" ++
    line s!"Passed: {total - failures}" ++ line s!"Failed: {failures}" ++ line "" ++
    line (if failures = 0 then "All files agree with the reference."
      else "Mismatches detected! See failed checks above.")

/-- The checks that a command line asks for. -/
def differentialFiles (host : Host) (o : Options) : Report :=
  let strategies :=
    match o.strategy with
    | some strategy => [strategy]
    | none => Strategy.all
  let sections := strategies.map fun strategy => (strategy, checks host o strategy)
  let results := sections.flatMap fun (_, results) => results
  let failures := results.countP fun (_, result) => !agrees result
  { code := if failures = 0 then 0 else 1
    out := line s!"=== Differential check against {o.reference} ===" ++ line "" ++
      String.join (sections.map fun (strategy, results) => sectionText strategy results) ++
      summary results.length failures }

/-- How the tool `differential` is called. -/
def differentialUsage : String :=
  "differential [--strategy env|subst] [--reference COMMAND] [--max-depth N] FILE..."

/-- The tool `differential`. -/
def differential (host : Host) (args : List String) : Report :=
  match Options.parse {} args with
  | some o => if o.files.isEmpty then misuse differentialUsage else differentialFiles host o
  | none => misuse differentialUsage

end TwinScheme.Console
