/-!
# Searching a text

Whether one text stands somewhere in another.
-/

namespace Lisp.Text

/-- The characters `part` stand somewhere in a row of characters. -/
def holdsChars (part : List Char) : List Char → Bool
  | [] => part.isEmpty
  | c :: cs => part.isPrefixOf (c :: cs) || holdsChars part cs

def holds (text part : String) : Bool :=
  holdsChars part.toList text.toList

end Lisp.Text
