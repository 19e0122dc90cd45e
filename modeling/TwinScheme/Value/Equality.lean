import TwinScheme.Value.Basic

/-!
# Two equalities

`equal?` compares structure and `eq?` compares identity.

Structural equality looks through lists and stops at procedures: a primitive is
its name, a created procedure is equal to itself alone. Identity is the same on
atoms and procedures; on lists it compares the identities, except that every
empty list is identical to every other. A float that is not a number, and the
unspecified value, are equal to nothing under either.
-/

namespace TwinScheme.Value

mutual

/-- Structural equality. -/
def equal : Value → Value → Bool
  | int a, int b => a == b
  | float a, float b => a == b
  | symbol a, symbol b => a == b
  | bool a, bool b => a == b
  | list _ as, list _ bs => equalAll as bs
  | primitive a, primitive b => a == b
  | closure a _ _ _, closure b _ _ _ => a == b
  | lambda a _ _, lambda b _ _ => a == b
  | _, _ => false

/-- Structural equality, element by element. -/
def equalAll : List Value → List Value → Bool
  | [], [] => true
  | a :: as, b :: bs => equal a b && equalAll as bs
  | _, _ => false

end

/-- Whether two values are the same thing. -/
def identical : Value → Value → Bool
  | int a, int b => a == b
  | float a, float b => a == b
  | symbol a, symbol b => a == b
  | bool a, bool b => a == b
  | list a as, list b bs => (as.isEmpty && bs.isEmpty) || a == b
  | primitive a, primitive b => a == b
  | closure a _ _ _, closure b _ _ _ => a == b
  | lambda a _ _, lambda b _ _ => a == b
  | _, _ => false

end TwinScheme.Value
