import TwinScheme.Error

/-!
# What a primitive procedure asks for

A primitive decides on its arguments alone. It makes no list and calls no
procedure itself; its outcome says what is to be made or called, and whoever
evaluates does it. So the whole table is a function from arguments to outcomes
that no state enters, and every way of evaluating shares it.
-/

namespace TwinScheme

/-- What is left to do once the arguments have been looked at. -/
inductive Outcome where
  /-- Nothing: this is the result. -/
  | value (v : Value)
  /-- The result is a new list of these elements. -/
  | fresh (items : List Value)
  /-- The result is a new list of what a procedure returns for each of these
  argument lists, called in order. -/
  | each (f : Value) (arguments : List (List Value))

namespace Arity

/-- The number that an arity error reports as expected. -/
def expected : Arity → Nat
  | exactly n | atLeast n => n
  | any => 0

/-- Refuses a number of arguments that does not fit. -/
def check (arity : Arity) (count : Nat) : Except Error Unit :=
  if arity.admits count then .ok () else .error (.arity arity.expected count)

end Arity

namespace Primitive

/-- An operation on one argument. -/
def unary (f : Value → Except Error Outcome) : List Value → Except Error Outcome
  | [a] => f a
  | args => .error (.arity 1 args.length)

/-- An operation on two arguments. -/
def binary (f : Value → Value → Except Error Outcome) : List Value → Except Error Outcome
  | [a, b] => f a b
  | args => .error (.arity 2 args.length)

/-- A question about one argument. -/
def test (holds : Value → Bool) : List Value → Except Error Outcome :=
  unary fun v => .ok (.value (.bool (holds v)))

end Primitive

end TwinScheme
