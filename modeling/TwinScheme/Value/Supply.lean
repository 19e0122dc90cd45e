import TwinScheme.Datum.Basic
import TwinScheme.Value.Basic

/-!
# Making lists

Whatever makes a list takes an identity for it from a supply, and the supply
moves on, so no two lists made from one supply share an identity. `Fresh` is
the monad of such computations. Reading is not one of them, because data have
no identity; turning a datum into a value is.
-/

namespace TwinScheme

/-- Computations that take identities from a supply. The state is the next
identity to hand out. -/
abbrev Fresh := StateM Identity

namespace Fresh

/-- Takes an identity. -/
def identity : Fresh Identity :=
  modifyGet fun next => (next, next + 1)

/-- Makes a list. -/
def list (items : List Value) : Fresh Value := do
  return .list (← identity) items

end Fresh

mutual

/-- The value of a datum, every list of it newly made. -/
def Datum.toValue : Datum → Fresh Value
  | .int n => return .int n
  | .float x => return .float x
  | .symbol name => return .symbol name
  | .list items => do Fresh.list (← Datum.toValues items)

/-- The values of several data. -/
def Datum.toValues : List Datum → Fresh (List Value)
  | [] => return []
  | d :: ds => do return (← d.toValue) :: (← Datum.toValues ds)

end

end TwinScheme
