/-!
# Excerpts

The piece of a source text that an error shows: a window of at most a hundred characters that
begins up to twenty characters before the place in question, on one line, with a mark where text
was left out.
-/

namespace Lisp.Text

/-- How many characters begin before the byte offset. -/
def charsBefore : List Char → Nat → Nat
  | [], _ => 0
  | c :: cs, offset => if offset = 0 then 0 else charsBefore cs (offset - c.utf8Size) + 1

namespace Excerpt

def width : Nat := 100

/-- The greatest number of characters shown before the place in question. -/
def leadIn : Nat := 20

def ellipsis : String := "[...]"

/-- The first character shown, for a place `k` characters into the text. -/
def start (k : Nat) : Nat := k - leadIn

def window (source : List Char) (k : Nat) : List Char :=
  (source.drop (start k)).take width

/-- A character as it stands on one line. -/
def flatten (c : Char) : List Char :=
  match c with
  | '\n' => ['\\', 'n']
  | '\r' => []
  | c => [c]

end Excerpt

/-- The excerpt around the place that begins at a byte offset. -/
def excerpt (source : String) (offset : Nat) : String :=
  let cs := source.toList
  let k := charsBefore cs offset
  let shown := Excerpt.window cs k
  (if 0 < Excerpt.start k then Excerpt.ellipsis else "") ++
    String.ofList (shown.flatMap Excerpt.flatten) ++
    (if Excerpt.start k + shown.length < cs.length then Excerpt.ellipsis else "")

end Lisp.Text
