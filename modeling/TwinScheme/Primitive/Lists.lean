import TwinScheme.Primitive.Outcome

/-!
# Lists

Taking lists apart and putting them together. There are no pairs: the second
argument of `cons` must be a list. `map` walks any number of lists at once and
stops with the shortest; its outcome lists the calls it asks for, and each of
them has fewer things in its arguments than the call of `map` had, which is why
a `map` of `map` of `map` comes to an end.
-/

namespace TwinScheme.Lists

/-- The first element. -/
def first : Value → Except Error Value
  | .list _ (v :: _) => .ok v
  | .list _ [] => .error (.eval (.emptyList .car) none)
  | _ => .error (.type (.needsList .car) none)

/-- The elements after the first. -/
def rest : Value → Except Error (List Value)
  | .list _ (_ :: vs) => .ok vs
  | .list _ [] => .error (.eval (.emptyList .cdr) none)
  | _ => .error (.type (.needsList .cdr) none)

/-- The elements with one more in front. -/
def prepend (v : Value) : Value → Except Error (List Value)
  | .list _ vs => .ok (v :: vs)
  | _ => .error (.type .needsListTail none)

/-- The elements of several lists, for a procedure that accepts nothing else. -/
def contents (p : Primitive) (args : List Value) : Except Error (List (List Value)) :=
  match args.mapM Value.items? with
  | some lists => .ok lists
  | none => .error (.type (.needsLists p) none)

/-- The number of elements. -/
def length : Value → Except Error Value
  | .list _ vs => .ok (.int (Int64.ofNat vs.length))
  | _ => .error (.type (.needsList .length) none)

/-- The length of the shortest list, zero if there is no list. -/
def shortest (lists : List (List Value)) : Nat :=
  (lists.map List.length).min?.getD 0

/-- The elements at one position of several lists. -/
def row (lists : List (List Value)) (i : Nat) : List Value :=
  lists.filterMap (·[i]?)

/-- The first elements of several lists, the second elements, and so on as long
as every list has one. -/
def rows (lists : List (List Value)) : List (List Value) :=
  (List.range (shortest lists)).map (row lists)

/-- The calls that `map` asks for. -/
def mapCalls : List Value → Except Error Outcome
  | [] => .error (.arity 2 0)
  | f :: lists =>
    if f.isProcedure then (contents .map lists).map fun lists => .each f (rows lists)
    else .error (.type (.needsProcedure .map f) none)

end TwinScheme.Lists
