import TwinScheme.Host.Basic
import TwinScheme.Host.Path

/-!
# Files and programs by path

The files that a user works with, by name, in front of the few things that are
installed on every system: some directories, the empty file `/dev/null`, and
five programs. Nothing else exists.

`Files.walk` follows a path step by step, and every step has to start from a
directory; going on from a file, or ending in a slash behind one, is a fault of
its own.
-/

namespace TwinScheme

/-- The programs that are installed. -/
inductive Program where
  | cat
  | echo
  | failure
  | printf
  | success
  deriving DecidableEq, Repr

/-- What a program is called. -/
def Program.name : Program → String
  | cat => "cat"
  | echo => "echo"
  | failure => "false"
  | printf => "printf"
  | success => "true"

/-- Every program. -/
def Program.all : List Program :=
  [cat, echo, failure, printf, success]

/-- The program of a name. -/
def Program.ofName? (name : String) : Option Program :=
  all.find? (·.name == name)

/-- What is found at a place. -/
inductive Content where
  | directory
  | file (bytes : List UInt8)
  | program (p : Program)

/-- The user's files by name. -/
abbrev Files := List (String × List UInt8)

namespace Files

/-- The directories in which programs are looked for. -/
def programDirectories : List String :=
  ["/bin", "/usr/bin"]

/-- What is installed besides the user's files. -/
def installed : List (Place × Content) :=
  (["/dev", "/etc", "/home", "/lib", "/opt", "/proc", "/root", "/sbin", "/tmp", "/usr/lib",
      "/usr/local/bin", "/usr/sbin", "/var"].map fun path => (Path.place path, .directory)) ++
    [(Path.place "/dev/null", .file [])] ++
    programDirectories.flatMap fun directory =>
      Program.all.map fun p => (Path.place (directory ++ "/" ++ p.name), .program p)

/-- Everything there is. -/
def entries (files : Files) : List (Place × Content) :=
  files.map (fun (name, bytes) => (Path.place name, .file bytes)) ++ installed

/-- What is at a place: what was put there, or a directory if something lies
below it. -/
def content? (files : Files) (place : Place) : Option Content :=
  match files.entries.find? (·.1 == place) with
  | some (_, content) => some content
  | none =>
    if place.names.isEmpty || files.entries.any (·.1.isBelow place) then some .directory else none

/-- Follows steps from a place. -/
def walk (files : Files) (place : Place) : List (List Char) → Except HostFault Content
  | [] =>
    match files.content? place with
    | some content => .ok content
    | none => .error .notFound
  | name :: rest =>
    match files.content? place with
    | none => .error .notFound
    | some .directory =>
      if Path.isNameTooLong name then .error .nameTooLong else files.walk (place.step name) rest
    | some _ => .error .notDirectory

/-- What a path leads to. -/
def resolve (files : Files) (path : String) : Except HostFault Content :=
  if path.isEmpty then .error .notFound
  else if Path.isTooLong path then .error .nameTooLong
  else files.walk (Path.start path) (Path.steps path)

/-- Reads the file that a path leads to. Programs are not text. -/
def read (files : Files) (path : String) : Except HostFault (List UInt8) :=
  match files.resolve path with
  | .ok (.file bytes) => .ok bytes
  | .ok .directory => .error .isDirectory
  | .ok (.program _) => .error .notText
  | .error fault => .error fault

/-- The program that a command means. With a slash in it, it is a path; without
one, it is looked for among the programs, where the two names of directories
are found too and are no programs. -/
def program (files : Files) (command : String) : Except HostFault Program :=
  if command.toList.contains '/' then
    match files.resolve command with
    | .ok (.program p) => .ok p
    | .ok _ => .error .notPermitted
    | .error fault => .error fault
  else if Path.isNameTooLong command.toList then .error .nameTooLong
  else if command = "." || command = ".." then .error .notPermitted
  else
    match Program.ofName? command with
    | some p => .ok p
    | none => .error .notFound

end Files

end TwinScheme
