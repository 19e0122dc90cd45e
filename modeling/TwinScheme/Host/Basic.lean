import TwinScheme.Text.Bytes

/-!
# The host

What programs need from the machine they run on: the bytes of a file, and what
a command prints when it is given a file's name. Both are functions here, so
everything built on them is a function too.
-/

namespace TwinScheme

/-- Why the host refused. -/
inductive HostFault where
  | notFound
  /-- A command that is not a program. -/
  | notPermitted
  /-- A path that goes on from something that is not a directory. -/
  | notDirectory
  /-- A directory that was to be read as a file. -/
  | isDirectory
  | nameTooLong
  /-- A command or an argument with a zero byte in it. -/
  | zeroByte
  /-- A file that was to be read as text is not UTF-8. -/
  | notText
  deriving DecidableEq, Repr

/-- The wording of a refusal. -/
def HostFault.message : HostFault → String
  | notFound => "No such file or directory (os error 2)"
  | notPermitted => "Permission denied (os error 13)"
  | notDirectory => "Not a directory (os error 20)"
  | isDirectory => "Is a directory (os error 21)"
  | nameTooLong => "File name too long (os error 36)"
  | zeroByte => "nul byte found in provided data"
  | notText => "stream did not contain valid UTF-8"

/-- What a command did. -/
structure Finished where
  succeeded : Bool
  output : List UInt8
  complaint : List UInt8 := []

/-- A command that has done its work. -/
def Finished.printing (output : List UInt8) : Finished :=
  { succeeded := true, output := output }

/-- A command that reports a failure. -/
def Finished.failing (complaint : String) : Finished :=
  { succeeded := false, output := [], complaint := Text.encode complaint }

/-- Files and commands. -/
structure Host where
  read : String → Except HostFault (List UInt8)
  run : String → String → Except HostFault Finished

/-- The text of a file. -/
def Host.readText (host : Host) (path : String) : Except HostFault String := do
  match Text.decode? (← host.read path) with
  | some text => .ok text
  | none => .error .notText

end TwinScheme
