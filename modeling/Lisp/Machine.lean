import Lisp.Heap
import Lisp.Sink
import Lisp.Event

/-!
# The machine

The state that evaluation works on, and the computations over it. A computation ends with a value,
with an error of the language, or because its fuel ran out; the last is no error of the language
and is told apart from all of them.
-/

namespace Lisp

structure Machine where
  heap : Heap
  /-- The next serial number. -/
  serial : Serial
  sink : Sink
  /-- The reports made so far, oldest first. -/
  events : Array Event

/-- Why a computation ended without a value. -/
inductive Stop
  | error (e : Error)
  | outOfFuel
  deriving DecidableEq

abbrev Run := EStateM Stop Machine

namespace Run

def fail {α : Type} (e : Error) : Run α :=
  throw (.error e)

def ofExcept {α : Type} : Except Error α → Run α
  | .ok a => pure a
  | .error e => fail e

def ofRead {α : Type} : Except ReadError α → Run α
  | .ok a => pure a
  | .error e => fail (.unreadable e)

def fresh {α : Type} (make : Fresh α) : Run α :=
  modifyGet fun m => let (a, serial) := make.run m.serial; (a, { m with serial })

def lookup (f : FrameId) (x : Symbol) : Run Value := do
  ofExcept ((← get).heap.lookup f x)

def define (f : FrameId) (x : Symbol) (v : Value) : Run Unit :=
  modify fun m => { m with heap := m.heap.define f x v }

def set (f : FrameId) (x : Symbol) (v : Value) : Run Unit := do
  let heap ← ofExcept ((← get).heap.set f x v)
  modify fun m => { m with heap }

def push (frame : Frame) : Run FrameId :=
  modifyGet fun m => let (f, heap) := m.heap.push frame; (f, { m with heap })

/-- Adds a frame under `f` that binds parameters to arguments. -/
def extend (f : FrameId) (params : Value) (args : List Value) : Run FrameId := do
  let make ← ofExcept (Frame.ofParams f params args)
  push (← fresh make)

def isRoot (f : FrameId) : Run Bool := do
  return ((← get).heap.parent? f).isNone

def emit (e : Event) : Run Unit :=
  modify fun m => { m with events := m.events.push e }

def write (text : String) : Run Unit := do
  let accepted ← modifyGet fun m => let (b, sink) := m.sink.write text; (b, { m with sink })
  unless accepted do fail .sinkClosed

/-- Notes the call on a type error that leaves it. -/
def inContext {α : Type} (call : Value) (run : Run α) : Run α :=
  run.adaptExcept fun
    | .error e => .error (e.inContext call)
    | .outOfFuel => .outOfFuel

end Run

end Lisp
