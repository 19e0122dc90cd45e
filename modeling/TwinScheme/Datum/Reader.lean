import TwinScheme.Datum.Basic
import TwinScheme.Datum.Token

/-!
# The reader

`Datum.read` takes one datum off the front of a token list and returns what is
left, also when it fails: the tokens it has looked at are gone, so a caller may
go on reading after the failure.

The lists that are still open are kept on a stack, innermost first, each with
the elements read so far, last first. The height of the stack is then the
nesting depth of the next token, which is what the limit is compared with, and
the reader is a single pass: each step consumes one token.
-/

namespace TwinScheme

/-- Why a token list does not start with a datum. -/
inductive ReadFault where
  /-- The tokens ended inside a list, or there were none. -/
  | incomplete
  /-- A closing parenthesis where a datum should start. -/
  | unexpectedClose
  /-- A list nested deeper than the limit. -/
  | tooDeep (limit : Nat)
  deriving DecidableEq, Repr

/-- The wording of a reader fault. -/
def ReadFault.message : ReadFault → String
  | incomplete => "unexpected end of input"
  | unexpectedClose => "unexpected )"
  | tooDeep limit => s!"nesting exceeds maximum depth of {limit}"

namespace Datum

/-- Lists nested this deep are accepted unless a caller says otherwise. -/
def defaultNesting : Nat := 256

/-- Reads on inside some open lists. -/
def readWithin (limit : Nat) :
    List (List Datum) → List Token → Except ReadFault Datum × List Token
  | _, [] => (.error .incomplete, [])
  | stack, .opening :: rest =>
    if limit ≤ stack.length then (.error (.tooDeep limit), rest)
    else readWithin limit ([] :: stack) rest
  | [], .closing :: rest => (.error .unexpectedClose, rest)
  | [items], .closing :: rest => (.ok (.list items.reverse), rest)
  | items :: outer :: stack, .closing :: rest =>
    readWithin limit ((.list items.reverse :: outer) :: stack) rest
  | [], .atom text :: rest => (.ok (ofAtom text), rest)
  | items :: stack, .atom text :: rest =>
    readWithin limit ((ofAtom text :: items) :: stack) rest

/-- Reads one datum, and returns the tokens after it. -/
def read (limit : Nat) (tokens : List Token) : Except ReadFault Datum × List Token :=
  readWithin limit [] tokens

/-- Reading consumes at least one token if there is one. -/
theorem length_readWithin_le (limit : Nat) (stack : List (List Datum)) (tokens : List Token) :
    (readWithin limit stack tokens).2.length ≤ tokens.length - 1 := by
  fun_induction readWithin limit stack tokens <;> simp_all <;> omega

/-- The first datum of a text. What follows it is not looked at. -/
def parse (limit : Nat) (text : String) : Except ReadFault Datum :=
  (read limit (Token.ofText text)).1

/-- Every datum of a token list. -/
def readAll (limit : Nat) (tokens : List Token) : Except ReadFault (List Datum) :=
  match tokens with
  | [] => .ok []
  | t :: ts =>
    match h : read limit (t :: ts) with
    | (.error fault, _) => .error fault
    | (.ok datum, rest) =>
      have shorter : rest.length < (t :: ts).length := by
        have hle := length_readWithin_le limit [] (t :: ts)
        rw [← read, h] at hle
        exact Nat.lt_succ_of_le hle
      (readAll limit rest).map (datum :: ·)
  termination_by tokens.length
  decreasing_by exact shorter

/-- Every datum of a text. -/
def parseAll (text : String) : Except ReadFault (List Datum) :=
  readAll defaultNesting (Token.ofText text)

end Datum

end TwinScheme
