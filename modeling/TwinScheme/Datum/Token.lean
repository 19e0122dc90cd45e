import TwinScheme.Text.Blank

/-!
# Tokens

A text is cut into parentheses and atoms. An atom is a maximal run of
characters that are neither blank nor parentheses; no other character is
special, so a quotation mark or a semicolon is part of the atom it stands in.
Every text has a token list: whether its parentheses match is for the reader to
say.

`scan` walks the text once and carries the run it is in, last character first;
a blank, a parenthesis or the end of the text completes the run. So the tokens
of two texts with a blank between them are those of the first followed by those
of the second.
-/

namespace TwinScheme

/-- A parenthesis, or a run of other characters. -/
inductive Token where
  | opening
  | closing
  | atom (text : String)
  deriving DecidableEq, Repr

namespace Token

/-- The characters of a token. -/
def text : Token → String
  | opening => "("
  | closing => ")"
  | atom text => text

/-- The atom that a run makes, if the run has any characters. -/
def complete (run : List Char) : List Token :=
  if run.isEmpty then [] else [atom (String.ofList run.reverse)]

/-- The tokens of a text that continues a run. -/
def scan (run : List Char) : List Char → List Token
  | [] => complete run
  | c :: cs =>
    if c = '(' then complete run ++ opening :: scan [] cs
    else if c = ')' then complete run ++ closing :: scan [] cs
    else if Text.isBlank c then complete run ++ scan [] cs
    else scan (c :: run) cs

/-- The tokens of a text. -/
def ofText (text : String) : List Token :=
  scan [] text.toList

end Token

end TwinScheme
