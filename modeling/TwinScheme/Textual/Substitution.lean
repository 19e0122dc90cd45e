import TwinScheme.Form.Shape
import TwinScheme.Value.Equality

/-!
# Substitution in trees

Replacing a name throughout a tree. Every subtree that is structurally equal to
the name is replaced, wherever it stands, so a binder of the same name is
replaced as well. A list headed by `quote` is data and is kept as it is, unless
it is itself what is to be replaced. Every other list is made anew; the tree
that was given is not changed.

A name is usually a symbol. It may be any tree, and is when an enclosing
substitution has turned a binder into the text of an argument.
-/

namespace TwinScheme.Textual

/-- Whether a list is headed by `quote`. -/
def isQuotation : List Value → Bool
  | .symbol name :: _ => name == Keyword.quote.name
  | _ => false

mutual

/-- Replaces every subtree equal to a name. -/
def replace (name replacement : Value) (tree : Value) : Fresh Value :=
  if tree.equal name then return replacement
  else
    match tree with
    | .list id items =>
      if isQuotation items then return .list id items
      else do Fresh.list (← replaceAll name replacement items)
    | tree => return tree

/-- Replaces in several trees. -/
def replaceAll (name replacement : Value) : List Value → Fresh (List Value)
  | [] => return []
  | tree :: rest => do
    return (← replace name replacement tree) :: (← replaceAll name replacement rest)

end

/-- Replaces one name after another. -/
def replaceEach (pairs : List (Value × Value)) (tree : Value) : Fresh Value :=
  pairs.foldlM (fun tree pair => replace pair.1 pair.2 tree) tree

/-- An expression that evaluates to a value: symbols and lists are quoted. -/
def literal : Value → Fresh Value
  | v@(.symbol _) | v@(.list _ _) => Fresh.list [.symbol Keyword.quote.name, v]
  | v => return v

/-- The body of a procedure with an argument in place of each parameter. -/
def instantiate (params args : List Value) (body : Value) : Fresh Value :=
  (params.zip args).foldlM (fun tree pair => do replace pair.1 (← literal pair.2) tree) body

end TwinScheme.Textual
