import TwinScheme.Host.Files
import TwinScheme.Host.Format

/-!
# A few commands

A program is compared with a reference on any host. This is one of them, that of
some files: it has five commands, each as it behaves when it is given one argument,
`true`, `false`, `cat`, `echo` and `printf`. They are enough to stand in for another
implementation of the language: `cat` prints the program, `echo` its name. A
command complains under the name by which it was called.
-/

namespace TwinScheme

namespace Command

/-- A complaint about how a command was called. -/
def misused (shown complaint : String) : Finished :=
  .failing (shown ++ ": " ++ complaint ++ "\nTry '" ++ shown ++ " --help' for more information.\n")

/-- Why `cat` refuses a file, in the words of the system. -/
def refusal : HostFault → String
  | .notFound => "No such file or directory"
  | .notPermitted => "Permission denied"
  | .notDirectory => "Not a directory"
  | .isDirectory => "Is a directory"
  | .nameTooLong => "File name too long"
  | .zeroByte | .notText => "Invalid argument"

/-- The letters of the options of `cat`. -/
def catLetters : List Char :=
  "AbeEnstTuv".toList

/-- The long options of `cat`. -/
def catOptions : List String :=
  ["--number", "--number-nonblank", "--show-all", "--show-ends", "--show-nonprinting",
    "--show-tabs", "--squeeze-blank"]

/-- Prints a file. With an option or a dash in place of a file name it prints
its input, which is empty. -/
def cat (files : Files) (shown arg : String) : Finished :=
  if arg = "-" || arg = "--" || catOptions.contains arg then .printing []
  else
    match arg.toList with
    | '-' :: '-' :: _ => misused shown ("unrecognized option '" ++ arg ++ "'")
    | '-' :: letters =>
      match letters.find? (!catLetters.contains ·) with
      | some c => misused shown ("invalid option -- '" ++ String.singleton c ++ "'")
      | none => .printing []
    | _ =>
      match files.read arg with
      | .ok bytes => .printing bytes
      | .error fault => .failing (shown ++ ": " ++ arg ++ ": " ++ refusal fault ++ "\n")

/-- Whether an argument of `echo` is a group of options. -/
def isEchoOption (arg : List Char) : Bool :=
  match arg with
  | '-' :: letters => !letters.isEmpty && letters.all fun c => c == 'n' || c == 'e' || c == 'E'
  | _ => false

/-- Prints its argument and a line feed. -/
def echo (arg : String) : Finished :=
  if isEchoOption arg.toList then
    .printing (if arg.toList.contains 'n' then [] else Text.encode "\n")
  else .printing (Text.encode (arg ++ "\n"))

/-- Prints its argument as a format. -/
def printf (shown arg : String) : Finished :=
  if arg = "--" then misused shown "missing operand"
  else
    match Format.print arg with
    | .ok output => .printing output
    | .error fault =>
      { succeeded := false
        output := []
        complaint :=
          Text.encode (shown ++ ": ") ++ Format.toBytes (fault.message ++ ['\n']) }

/-- Runs a program that was called by some name. -/
def run (files : Files) (shown arg : String) : Program → Finished
  | .cat => cat files shown arg
  | .echo => echo arg
  | .failure => .failing ""
  | .printf => printf shown arg
  | .success => .printing []

end Command

/-- Runs a command. -/
def Files.run (files : Files) (command arg : String) : Except HostFault Finished :=
  if command.toList.contains '\x00' || arg.toList.contains '\x00' then .error .zeroByte
  else (files.program command).map (Command.run files command arg)

/-- The host of some files. -/
def Host.ofFiles (files : Files) : Host where
  read := files.read
  run := files.run

end TwinScheme
