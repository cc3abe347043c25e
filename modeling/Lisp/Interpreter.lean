import Lisp.Eval
import Lisp.Reader

/-!
# Interpreters

Source text evaluated in a global frame that lasts. The global frame binds `NIL`, `TRUE` and every
operator to its own symbol, so a primitive can be handed around by name.
-/

namespace Lisp

/-- A frame without parent in which every name of the language is bound to itself. -/
def Frame.global : Frame :=
  Symbol.predefined.foldl (fun frame s => frame.define s (.symbol s)) (.empty none)

/-- The machine before anything is evaluated, without any frame. -/
def Machine.blank (room : Option Nat) : Machine :=
  ⟨.empty, 0, .empty room, #[]⟩

/-- The machine before anything is evaluated, with the global frame as its only one. -/
def Machine.initial (room : Option Nat) : Machine :=
  { Machine.blank room with heap := (Heap.empty.push .global).2 }

structure Interpreter where
  limits : Limits
  /-- The depth of evaluation at which to give up if `limits` sets none. -/
  fuel : Nat

namespace Interpreter

def global : FrameId := 0

def evaluateIn (i : Interpreter) (f : FrameId) (d : Datum) : Run Value := do
  Lisp.evaluate i.limits i.fuel (← Run.fresh (Value.ofDatum d)) f

/-- Evaluates an expression in the global frame. -/
def evaluate (i : Interpreter) (d : Datum) : Run Value :=
  i.evaluateIn global d

def evalFirst (i : Interpreter) (source : String) : Run Value := do
  i.evaluate (← Run.ofRead (Reader.ofSource source i.limits.parse).readRequired)

/-- Evaluates outcomes of reading in order up to the first error, and gives the last value. -/
def evalOutcomes (i : Interpreter) (last : Value) :
    List (Except ReadError Datum) → Run Value
  | [] => pure last
  | outcome :: rest => do
    let v ← i.evaluate (← Run.ofRead outcome)
    i.evalOutcomes v rest

/-- Evaluates every expression of a text in order up to the first error, and gives the last value,
`NIL` if there is none. -/
def evalAll (i : Interpreter) (source : String) : Run Value :=
  i.evalOutcomes .nil (Reader.ofSource source i.limits.parse).outcomes

end Interpreter

/-- The value of the first expression of a text in a fresh global frame, without limits. -/
def evaluateSource (fuel : Nat) (source : String) : EStateM.Result Stop Machine Value :=
  (Interpreter.evalFirst ⟨.unlimited, fuel⟩ source).run (.initial none)

end Lisp
