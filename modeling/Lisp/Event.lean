import Lisp.Value.Printer

/-!
# Events

What an evaluation reports of itself: bindings made in a frame without parent, and every call of a
function.
-/

namespace Lisp

inductive Event
  /-- A name was bound to a value at the top level. -/
  | setGlobal (name : Symbol) (value : Value)
  /-- A function was defined at the top level. -/
  | defunGlobal (name : Symbol) (params : Value)
  /-- A function is about to be applied. -/
  | applyClosure (params : Value) (count : Nat)
  deriving DecidableEq

namespace Event

/-- The report as a line of a log. -/
def describe : Event → String
  | setGlobal name value =>
    "DEBUG SET global binding name=" ++ name.name ++ " value=" ++ value.print
  | defunGlobal name params =>
    "DEBUG DEFUN global function name=" ++ name.name ++ " params=" ++ params.print
  | applyClosure params count =>
    "TRACE applying closure params=" ++ params.print ++ " args=" ++ Text.Decimal.ofNat count

end Event

end Lisp
