import TwinScheme.Text.Mark
import TwinScheme.Text.Printable

/-!
# Quoted text

A text shown between quotation marks so that every character of it can be told
apart. The quotation mark and the backslash are escaped, the four common
controls have letters of their own, and whatever would be invisible or would
attach to its neighbour is written as its code point. The apostrophe, which
does not end the text, stands for itself.
-/

namespace TwinScheme.Text

/-- The lower-case hexadecimal digits of a number, without padding. -/
def hex (n : Nat) : List Char :=
  Nat.toDigits 16 n

/-- One character as it appears in a quoted text. -/
def quoteChar (c : Char) : List Char :=
  if c = '"' then ['\\', '"']
  else if c = '\\' then ['\\', '\\']
  else if c = '\n' then ['\\', 'n']
  else if c = '\r' then ['\\', 'r']
  else if c = '\t' then ['\\', 't']
  else if c = '\x00' then ['\\', '0']
  else if isMark c || !isPrintable c then ['\\', 'u', '\x7b'] ++ hex c.toNat ++ ['\x7d']
  else [c]

/-- A text between quotation marks. -/
def quote (text : String) : String :=
  String.ofList ('"' :: text.toList.flatMap quoteChar ++ ['"'])

end TwinScheme.Text
