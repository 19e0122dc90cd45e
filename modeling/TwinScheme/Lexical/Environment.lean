/-!
# Environments

Bindings live in frames, and frames live in a heap, where every holder of a
frame's number sees what is bound there now. An environment is a chain of such
numbers, innermost first: it says where names are looked up and in what order,
and nothing about what they are bound to. A chain never changes once it is
made, so a procedure that captured one keeps the same scopes for ever.
-/

namespace TwinScheme

/-- A chain of frames, innermost first. -/
structure Environment where
  /-- The frame in which definitions are made. -/
  innermost : Nat
  /-- The frames that are searched after it. -/
  outer : List Nat
  deriving DecidableEq, Repr, Inhabited

namespace Environment

/-- The frames in the order in which they are searched. -/
def frames (env : Environment) : List Nat :=
  env.innermost :: env.outer

/-- The number of frames. -/
def depth (env : Environment) : Nat :=
  env.frames.length

/-- Two environments are the same if definitions in them go to the same frame. -/
def same (a b : Environment) : Bool :=
  a.innermost == b.innermost

end Environment

end TwinScheme
