import TwinScheme.Number.Numeral

/-!
# Data: what a text denotes

A datum is a number, a symbol or a list of data. It is what the reader
produces and it knows nothing of evaluation: there are no booleans among data
(`#t` is a symbol that happens to be bound), no procedures, and two lists with
the same elements are the same datum.
-/

namespace TwinScheme

/-- The tree that a text denotes. -/
inductive Datum where
  | int (n : Int64)
  | float (x : Float)
  | symbol (name : String)
  | list (items : List Datum)
  deriving Inhabited

/-- What an atom denotes: an integer if it is the numeral of one, else a float
if it is the numeral of one, else the symbol of that name. -/
def Datum.ofAtom (text : String) : Datum :=
  match Number.int64? text.toList with
  | some n => .int n
  | none =>
    match Number.float? text.toList with
    | some x => .float x
    | none => .symbol text

end TwinScheme
