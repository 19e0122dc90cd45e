import TwinScheme.Number.Numeral
import TwinScheme.Text.Blank
import TwinScheme.Value.Printer

/-!
# Results as an observer sees them

Two implementations are compared by what their programs finally print, and only
booleans and integers are compared. `Observation.ofText` reads such a result from a
printed text, `Observation.ofValue` takes it from a value; a float without a
fraction counts as an integer if it is strictly between the words of sixty-four
bits on either side. A failure carries the text that has no such meaning.
-/

namespace TwinScheme

/-- A result that can be compared. -/
inductive Observation where
  | bool (b : Bool)
  | int (n : Int64)
  deriving DecidableEq, Repr

namespace Observation

/-- Reads a result from printed text, apart from blanks at its ends. -/
def ofText (output : String) : Except String Observation :=
  let text := Text.trim output.toList
  if text = "#t".toList then .ok (.bool true)
  else if text = "#f".toList then .ok (.bool false)
  else
    match Number.int64? text with
    | some n => .ok (.int n)
    | none => .error (String.ofList text)

/-- The integer that a float is. -/
def integerOfFloat? (x : Float) : Option Int64 :=
  (Number.whole? x).bind fun n =>
    if n.natAbs < 0x8000000000000000 then some (Int64.ofInt n) else none

/-- The result that a value is. -/
def ofValue : Value → Except String Observation
  | .bool b => .ok (.bool b)
  | .int n => .ok (.int n)
  | .float x =>
    match integerOfFloat? x with
    | some n => .ok (.int n)
    | none => .error (Value.float x).display
  | v => .error v.display

/-- The printed text of a result. -/
def text : Observation → String
  | bool b => if b then "#t" else "#f"
  | int n => Number.integerText n.toInt

end Observation

end TwinScheme
