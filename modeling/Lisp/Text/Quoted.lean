import Lisp.Text.HiddenTable

/-!
# Quoted names

A name between double quotes, with everything that cannot be seen written as an escape: the quote
and the backslash after a backslash, the common controls by a letter, any other hidden character
by its code point in hexadecimal.
-/

namespace Lisp.Text

/-- The hexadecimal digits of `n`, most significant first, in small letters. -/
def hexDigits (n : Nat) : List Char :=
  if n < 16 then [Nat.digitChar n] else hexDigits (n / 16) ++ [Nat.digitChar (n % 16)]

/-- A character as it stands inside a quoted name. -/
def escapeChar (c : Char) : List Char :=
  match c with
  | '"' => ['\\', '"']
  | '\\' => ['\\', '\\']
  | '\n' => ['\\', 'n']
  | '\r' => ['\\', 'r']
  | '\t' => ['\\', 't']
  | '\x00' => ['\\', '0']
  | c => if isHidden c then ['\\', 'u', '\x7b'] ++ hexDigits c.toNat ++ ['\x7d'] else [c]

def quoted (s : String) : String :=
  String.ofList ('"' :: s.toList.flatMap escapeChar ++ ['"'])

end Lisp.Text
