import Lisp.Text.Blank

/-!
# Tokens

The lexical units of source text. Atoms keep the spelling they have in the source.
-/

namespace Lisp

inductive Token
  | opening
  | closing
  | quote
  | dot
  | atom (text : String)
  deriving DecidableEq

namespace Token

def text : Token → String
  | opening => "("
  | closing => ")"
  | quote => "'"
  | dot => "."
  | atom text => text

/-- The character ends an atom. -/
def isDelimiter (c : Char) : Bool :=
  Text.isBlank c || c == '(' || c == ')' || c == '\'' || c == ';'

end Token

end Lisp
