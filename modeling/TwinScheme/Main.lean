import TwinScheme.Console.Differential
import TwinScheme.Console.Repl
import TwinScheme.Console.Run
import TwinScheme.Host.Command

/-!
# The command line

The first argument names the tool: `run`, `repl` or `differential`. This is the
only module that touches the world. It reads the files that the command line
names, lets the tool work on them, and prints what the tool leaves behind; the
interactive interpreter is fed line by line.
-/

namespace TwinScheme

/-- Reads the files that exist. -/
def loadFiles (paths : List String) : IO Files := do
  let mut files : Files := []
  for path in paths do
    try
      let bytes ← IO.FS.readBinFile path
      files := (path, bytes.toList) :: files
    catch _ => pure ()
  return files.reverse

/-- Prints what a tool leaves behind. -/
def deliver (report : Console.Report) : IO UInt32 := do
  IO.print report.out
  IO.eprint report.err
  return UInt32.ofNat report.code

/-- Runs a tool on the files that its arguments name. -/
def runTool (tool : Host → List String → Console.Report) (args : List String) : IO UInt32 := do
  let paths := ((Console.Options.parse {} args).map (·.files)).getD []
  deliver (tool (Host.ofFiles (← loadFiles paths)) args)

/-- Answers lines until the conversation is over. -/
partial def converse (state : Console.Repl.State) : IO UInt32 := do
  let input ← IO.getStdin
  if ← input.isTty then
    IO.print s!"scheme[{state.session.strategy.name}]> "
    (← IO.getStdout).flush
  let text ← input.getLine
  let delivery :=
    match Text.lines text.toList with
    | [] => .ended
    | keys :: _ => Console.Repl.Delivery.ofKeys keys
  let (report, next) := Console.Repl.turn state delivery
  let code ← deliver report
  match next with
  | some state => converse state
  | none => return code

/-- Starts a conversation. -/
def startRepl (args : List String) : IO UInt32 := do
  match Console.Options.parse {} args with
  | some o =>
    IO.print Console.Repl.banner
    converse (.start (.ofOptions o))
  | none => deliver (Console.repl args "")

end TwinScheme

/-- The tool that the first argument names. -/
def main (args : List String) : IO UInt32 :=
  match args with
  | "run" :: rest => TwinScheme.runTool TwinScheme.Console.run rest
  | "differential" :: rest => TwinScheme.runTool TwinScheme.Console.differential rest
  | "repl" :: rest => TwinScheme.startRepl rest
  | _ => TwinScheme.deliver (TwinScheme.Console.misuse "run|repl|differential ARGUMENT...")
