import TwinScheme.Text.Blank

/-!
# Paths

A path is a list of steps between slashes. A step names something in the
directory reached so far, except that `.` stays there and `..` goes to the
directory above; a path that ends in a slash asks to stay in a directory.

Where the working directory lies is not known, so a place is given relative to
the root or to some directory at or above the working directory. The root is
above itself.
-/

namespace TwinScheme

/-- Where a place is counted from. -/
inductive Base where
  | root
  /-- The working directory, or the directory so many levels above it. -/
  | working (levels : Nat)
  deriving DecidableEq, Repr

/-- A place in the tree of files: the names that lead to it from a base, last
name first. -/
structure Place where
  base : Base
  names : List (List Char)
  deriving DecidableEq, Repr

namespace Place

/-- The root. -/
def root : Place :=
  ⟨.root, []⟩

/-- The working directory. -/
def working : Place :=
  ⟨.working 0, []⟩

/-- The directory that a place is in. -/
def parent : Place → Place
  | ⟨base, _ :: names⟩ => ⟨base, names⟩
  | ⟨.root, []⟩ => root
  | ⟨.working levels, []⟩ => ⟨.working (levels + 1), []⟩

/-- Takes one step. -/
def step (place : Place) (name : List Char) : Place :=
  if name = ['.'] then place
  else if name = ['.', '.'] then place.parent
  else ⟨place.base, name :: place.names⟩

/-- Whether a place is the other one or somewhere below it. -/
def isBelow (place other : Place) : Bool :=
  place.base == other.base && other.names.isSuffixOf place.names

end Place

namespace Path

/-- Where a path starts. -/
def start (path : String) : Place :=
  if Text.startsWith path.toList ['/'] then .root else .working

/-- The steps of a path. -/
def steps (path : String) : List (List Char) :=
  let names := (Text.split (· == '/') path.toList).filter (!·.isEmpty)
  if path.toList.getLast? = some '/' then names ++ [['.']] else names

/-- The place a path leads to if nothing is in its way. -/
def place (path : String) : Place :=
  (steps path).foldl .step (start path)

/-- A name has at most 255 bytes. -/
def isNameTooLong (name : List Char) : Bool :=
  255 < (String.ofList name).utf8ByteSize

/-- A path has at most 4095 bytes. -/
def isTooLong (path : String) : Bool :=
  4095 < path.utf8ByteSize

end Path

end TwinScheme
