import Lisp.Operator

/-!
# Data

What source text denotes: integers, symbols, and pairs of data. A list is a chain of pairs that
ends in `NIL`, a dotted list one that ends in anything else.
-/

namespace Lisp

/-- An expression as it is read. -/
inductive Datum
  | number (n : Int64)
  | symbol (s : Symbol)
  | cons (first rest : Datum)
  deriving DecidableEq

namespace Datum

def nil : Datum := symbol .nil

/-- The chain of pairs over `items` that ends in `tail`. -/
def ofList (items : List Datum) (tail : Datum) : Datum :=
  items.foldr cons tail

/-- The two-element list that stands for a quoted datum. -/
def quote (d : Datum) : Datum :=
  ofList [symbol (Builtin.symbol (.special .quote)), d] nil

/-- An atom denotes an integer if its text is one that fits 64 bits, and a symbol otherwise. -/
def ofAtom (text : String) : Datum :=
  match Text.Decimal.readInt64? text.toList with
  | some n => number n
  | none => symbol (.ofName text)

end Datum

end Lisp
