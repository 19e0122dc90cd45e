/-!
# Keywords

The names that make a list a special form when they stand at its head. They are
recognised before any look-up, so a definition of such a name has no effect on
the forms it heads.
-/

namespace TwinScheme

/-- The special forms. -/
inductive Keyword where
  | quote
  | define
  | set
  | cond
  | ite
  | begin
  | letForm
  | lambda
  deriving DecidableEq, Repr

namespace Keyword

/-- The name that heads the form. -/
def name : Keyword → String
  | quote => "quote"
  | define => "define"
  | set => "set!"
  | ite => "if"
  | cond => "cond"
  | begin => "begin"
  | letForm => "let"
  | lambda => "lambda"

/-- What the form is called. -/
def title : Keyword → String
  | quote => "Quote"
  | define => "Define"
  | set => "Set"
  | ite => "If"
  | cond => "Cond"
  | begin => "Begin"
  | letForm => "Let"
  | lambda => "Lambda"

/-- Every keyword. -/
def all : List Keyword :=
  [quote, define, set, ite, cond, begin, letForm, lambda]

/-- The keyword of a name. -/
def ofName? (name : String) : Option Keyword :=
  all.find? (·.name == name)

end Keyword

end TwinScheme
