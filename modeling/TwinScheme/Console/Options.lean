import TwinScheme.Session

/-!
# Command lines

What the three tools accept on their command lines: file names, and options
that take a value, which follows as the next argument or after an equals sign.
After `--` every argument is a file name.
-/

namespace TwinScheme.Console

/-- A command line taken apart. -/
structure Options where
  files : List String := []
  strategy : Option Strategy := none
  depth : Option Nat := none
  reference : String := "racket"

namespace Options

/-- The limits that a command line asks for. -/
def limits (o : Options) : Limits :=
  match o.depth with
  | some depth => { depth := depth }
  | none => {}

/-- The count that an argument denotes. -/
def count? (text : String) : Option Nat :=
  match text.toList with
  | '+' :: digits => Number.natural? digits
  | digits => Number.natural? digits

/-- Takes an option and its value into account. -/
def withOption (o : Options) (name value : String) : Option Options :=
  match name with
  | "--strategy" => (Strategy.ofName? value).map fun s => { o with strategy := some s }
  | "--max-depth" => (count? value).map fun n => { o with depth := some n }
  | "--reference" => some { o with reference := value }
  | _ => none

/-- Takes a file name into account. -/
def withFile (o : Options) (file : String) : Options :=
  { o with files := o.files ++ [file] }

/-- An argument cut at its first equals sign, if it has one. -/
def cut? (arg : String) : Option (String × String) :=
  match Text.split (· == '=') arg.toList with
  | name :: value :: more =>
    some (String.ofList name, String.ofList (['='].intercalate (value :: more)))
  | _ => none

/-- Reads arguments from left to right; `none` if one cannot be understood. -/
def parse (o : Options) : List String → Option Options
  | [] => some o
  | "--" :: files => some (files.foldl withFile o)
  | arg :: rest =>
    if Text.startsWith arg.toList "--".toList then
      match cut? arg, rest with
      | some (name, value), rest => (o.withOption name value).bind fun o => o.parse rest
      | none, value :: rest => (o.withOption arg value).bind fun o => o.parse rest
      | none, [] => none
    else (o.withFile arg).parse rest

end Options

/-- What a tool leaves behind. -/
structure Report where
  code : Nat := 0
  out : String := ""
  err : String := ""

/-- What is left behind by one thing done after another. -/
def Report.andThen (first second : Report) : Report where
  code := second.code
  out := first.out ++ second.out
  err := first.err ++ second.err

/-- A line of output. -/
def line (text : String) : String :=
  text ++ "\n"

/-- The answer to a command line that cannot be understood. -/
def misuse (usage : String) : Report :=
  { code := 2, err := line ("error: usage: " ++ usage) }

end TwinScheme.Console
