import TwinScheme.Session
import TwinScheme.Text.Lines

/-!
# Programs

A program is a text with one form on each line. Lines of blanks, comments, and
the lines that only another implementation understands are left out; the others
are evaluated in order, and the result is that of the last one. The first line
that fails ends the run.
-/

namespace TwinScheme.Program

/-- Whether a line is a comment, a language line or a `require` line. -/
def isDirective (line : List Char) : Bool :=
  Text.startsWith line "#".toList || Text.startsWith line ";".toList ||
    Text.startsWith line "(require".toList

/-- Whether a line is evaluated. -/
def isEvaluated (line : List Char) : Bool :=
  !isDirective line && !(Text.trim line).isEmpty

/-- The lines of a program that are evaluated, in order. -/
def lines (source : String) : List String :=
  ((Text.lines source.toList).filter isEvaluated).map String.ofList

/-- Evaluates lines until one fails. The result is that of the last line, or the
given one if there is no line. -/
def runLines (last : Option Value) (s : Session) :
    List String → Except Error (Option Value) × Session
  | [] => (.ok last, s)
  | line :: rest =>
    match s.evalLine line with
    | (.error e, s) => (.error e, s)
    | (.ok v, s) => runLines (some v) s rest

/-- Runs a program; there is no result if it has no line to evaluate. -/
def run (s : Session) (source : String) : Except Error (Option Value) × Session :=
  runLines none s (lines source)

end TwinScheme.Program
