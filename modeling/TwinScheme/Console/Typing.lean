import TwinScheme.Console.Conversation
import TwinScheme.Text.Cluster.Basic

/-!
# An editor with backspaces

One of the editors that may stand before a conversation: the input is not a
terminal, and of the keys only the backspaces mean something. They are carried out
before the line is delivered. Each erases the cluster typed last that is still
there, and does nothing if there is none; without them a line is delivered as it is.

The size of a cluster is remembered in a single byte. Of a cluster of 256 bytes
or more only as many bytes are erased as the size is beyond a multiple of 256,
and if that would leave a part of a character behind, the editor breaks down.
-/

namespace TwinScheme.Console

/-- A line while it is typed: its characters, and the sizes of the clusters that
can be erased, both with the last one first. -/
structure Draft where
  chars : List Char := []
  sizes : List UInt8 := []
  deriving DecidableEq, Repr

/-- Drops so many bytes of a text, if there is no character of which only a part
would be dropped. -/
def dropBytes (n : Nat) : List Char → Option (List Char)
  | [] => if n = 0 then some [] else none
  | c :: cs =>
    if n = 0 then some (c :: cs)
    else if c.utf8Size ≤ n then dropBytes (n - c.utf8Size) cs
    else none

namespace Draft

/-- Adds a cluster. -/
def add (d : Draft) (cluster : List Char) : Draft where
  chars := cluster.reverse ++ d.chars
  sizes := UInt8.ofNat (String.ofList cluster).utf8ByteSize :: d.sizes

/-- Erases the last cluster. -/
def erase (d : Draft) : Option Draft :=
  match d.sizes with
  | [] => some d
  | size :: sizes => (dropBytes size.toNat d.chars).map fun chars => ⟨chars, sizes⟩

/-- Takes in what was typed next. A backspace is always a cluster of its own. -/
def enter (d : Draft) (cluster : List Char) : Option Draft :=
  if cluster = ['\x08'] then d.erase else some (d.add cluster)

end Draft

/-- The line that comes of what was typed. -/
def typed? (keys : List Char) : Option (List Char) :=
  ((Text.clusters keys).foldlM Draft.enter {}).map fun d => d.chars.reverse

namespace Repl

/-- What is delivered of the keys of one line. -/
def Delivery.ofKeys (keys : List Char) : Delivery :=
  match typed? keys with
  | some text => .line text
  | none => .crashed "cannot erase a part of a character"

/-- The editor with backspaces. -/
def typing : Editor := fun lines =>
  lines.map Delivery.ofKeys ++ [.ended]

end Repl

end TwinScheme.Console
