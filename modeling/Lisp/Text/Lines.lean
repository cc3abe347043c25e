/-!
# Lines

A text as its lines: a line ends at a newline, a carriage return just before it belongs to the
line's end, and what follows the last newline is a line unless it is empty.
-/

namespace Lisp.Text

/-- Drops one carriage return at the end; `rev` is the line's reverse. -/
def endLine (rev : List Char) : String :=
  match rev with
  | '\r' :: rest => String.ofList rest.reverse
  | rest => String.ofList rest.reverse

/-- Splits into lines; `rev` is the reverse of what stands before on the first line. -/
def splitLines (rev : List Char) : List Char → List String
  | [] => if rev.isEmpty then [] else [String.ofList rev.reverse]
  | '\n' :: cs => endLine rev :: splitLines [] cs
  | c :: cs => splitLines (c :: rev) cs

/-- The lines of a text, without their ends. -/
def lines (s : String) : List String :=
  splitLines [] s.toList

end Lisp.Text
