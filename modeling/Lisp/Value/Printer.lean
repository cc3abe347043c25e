import Lisp.Value

/-!
# Printed form

A list is printed between parentheses with its elements separated by spaces; a tail other than
`NIL` follows a dot. Functions are opaque.
-/

namespace Lisp.Value

def printAtom : Value → List Char
  | number n => (Text.Decimal.ofInt n.toInt).toList
  | symbol s => s.name.toList
  | closure .. => "#<FUNCTION>".toList
  | pair .. => []

/-- Writes a value in front of `after`. Inside a list (`inTail`) the value is the rest of the
list: a further element, the closing parenthesis, or a dotted tail. -/
def write : Value → (inTail : Bool) → (after : List Char) → List Char
  | pair _ first rest, inTail, after =>
    (if inTail then ' ' else '(') :: first.write false (rest.write true after)
  | atom, false, after => atom.printAtom ++ after
  | atom, true, after =>
    if atom.isNil then ')' :: after else ' ' :: '.' :: ' ' :: (atom.printAtom ++ ')' :: after)

def print (v : Value) : String :=
  String.ofList (v.write false [])

/-- The printed form with the kind of value made plain; a function shows what it is made of. -/
def inspect (v : Value) : String :=
  match v with
  | number _ => "Number(" ++ v.print ++ ")"
  | symbol _ => "Symbol(" ++ v.print ++ ")"
  | pair .. => "Pair" ++ v.print
  | closure _ params body _ => "Closure(params=" ++ params.print ++ ", body=" ++ body.print ++ ")"

end Lisp.Value
