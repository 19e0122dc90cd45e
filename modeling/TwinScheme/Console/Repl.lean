import TwinScheme.Console.Typing
import TwinScheme.Text.Lines

/-!
# The tool for conversations

The tool takes its command line apart, and what the editor delivers of its input
is the conversation.
-/

namespace TwinScheme.Console

/-- The tool `repl` with some editor, from the text of its input. -/
def replWith (editor : Repl.Editor) (args : List String) (input : String) : Report :=
  match Options.parse {} args with
  | some o => Repl.conversation o (editor (Text.lines input.toList))
  | none => misuse "repl [--strategy env|subst] [--max-depth N]"

/-- The tool `repl` with the editor that knows backspaces. -/
def repl : List String → String → Report :=
  replWith Repl.typing

end TwinScheme.Console
