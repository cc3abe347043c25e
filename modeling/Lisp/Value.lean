import Lisp.Datum

/-!
# Values

What expressions evaluate to and are evaluated from. Pairs and functions are objects: each carries
the serial number of its making, by which the language tells one object from another of the same
shape. Makers draw serial numbers from a counter.
-/

namespace Lisp

/-- The number of an object in the order of making. -/
abbrev Serial := Nat

/-- The place of a frame in the heap. -/
abbrev FrameId := Nat

/-- A computation that makes objects and counts them. -/
abbrev Fresh := StateM Serial

def Fresh.serial : Fresh Serial :=
  modifyGet fun n => (n, n + 1)

inductive Value
  | number (n : Int64)
  | symbol (s : Symbol)
  | pair (serial : Serial) (first rest : Value)
  /-- A function: its parameter list, its body and the frame it was made in. -/
  | closure (serial : Serial) (params body : Value) (frame : FrameId)
  deriving DecidableEq

namespace Value

def nil : Value := symbol .nil

def truth : Value := symbol .truth

def ofBool (b : Bool) : Value := if b then truth else nil

def isNil : Value → Bool
  | symbol s => s.isNil
  | _ => false

/-- Everything but `NIL` counts as true. -/
def isTruthy (v : Value) : Bool := !v.isNil

/-- Symbols and numbers are atoms; pairs and functions are not. -/
def isAtom : Value → Bool
  | symbol _ | number _ => true
  | _ => false

def symbol? : Value → Option Symbol
  | symbol s => some s
  | _ => none

def number? : Value → Option Int64
  | number n => some n
  | _ => none

/-! ### Makers -/

def cons (first rest : Value) : Fresh Value := do
  return pair (← Fresh.serial) first rest

/-- New pairs over `items` that end in `tail`. -/
def ofList : List Value → Value → Fresh Value
  | [], tail => pure tail
  | v :: vs, tail => do
    let rest ← ofList vs tail
    cons v rest

def function (params body : Value) (frame : FrameId) : Fresh Value := do
  return closure (← Fresh.serial) params body frame

/-- New objects of the shape that a datum describes. -/
def ofDatum : Datum → Fresh Value
  | .number n => pure (number n)
  | .symbol s => pure (symbol s)
  | .cons first rest => do
    let a ← ofDatum first
    let d ← ofDatum rest
    cons a d

end Value

end Lisp
