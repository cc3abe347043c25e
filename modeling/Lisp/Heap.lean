import Lisp.Frame
import Lisp.Error

/-!
# The heap of frames

All frames ever made, in the order of making. Frames are shared: a closure and a call both hold
the place of a frame, and see what is bound there later. A parent is older than its children, so
the chain of frames from any frame outwards ends.
-/

namespace Lisp

/-- All frames, oldest first. -/
structure Heap where
  frames : Array Frame

namespace Heap

def empty : Heap := ⟨#[]⟩

def frame? (h : Heap) (f : FrameId) : Option Frame := h.frames[f]?

def parent? (h : Heap) (f : FrameId) : Option FrameId :=
  (h.frame? f).bind Frame.parent

/-- A frame and its ancestors, innermost first. -/
def chain (h : Heap) (f : FrameId) : List FrameId :=
  match h.frame? f with
  | none => []
  | some frame =>
    match frame.parent with
    | none => [f]
    | some p => if p < f then f :: h.chain p else [f]
termination_by f

/-- The value bound to a name in the frame at a place. -/
def local? (h : Heap) (f : FrameId) (x : Symbol) : Option Value :=
  (h.frame? f).bind (·.lookup? x)

/-- The nearest frame of the chain that binds a name. -/
def holder? (h : Heap) (f : FrameId) (x : Symbol) : Option FrameId :=
  (h.chain f).find? fun g => (h.local? g x).isSome

/-- The value bound to a name in the nearest frame that binds it. -/
def lookup? (h : Heap) (f : FrameId) (x : Symbol) : Option Value :=
  (h.chain f).findSome? fun g => h.local? g x

/-- The visible bindings by name; a binding hides those of the same name further out. -/
def bindings (h : Heap) (f : FrameId) : Bindings :=
  Bindings.sorted ((h.chain f).flatMap fun g => (h.frame? g).elim [] Frame.bindings)

def push (h : Heap) (frame : Frame) : FrameId × Heap :=
  (h.frames.size, ⟨h.frames.push frame⟩)

def define (h : Heap) (f : FrameId) (x : Symbol) (v : Value) : Heap :=
  ⟨h.frames.modify f fun frame => frame.define x v⟩

/-- Replaces the binding of a name in the nearest frame that binds it. -/
def set (h : Heap) (f : FrameId) (x : Symbol) (v : Value) : Except Error Heap :=
  match h.holder? f x with
  | some g => .ok (h.define g x v)
  | none => .error (.unbound x)

/-- The value of a name; a name that no frame of the chain binds is an error. -/
def lookup (h : Heap) (f : FrameId) (x : Symbol) : Except Error Value :=
  match h.lookup? f x with
  | some v => .ok v
  | none => .error (.unbound x)

end Heap

/-! ### Parameters -/

/-- How parameters take arguments: names with one argument each, and a name for all that is left. -/
structure ParameterMatch where
  each : Bindings
  rest : Option (Symbol × List Value)

namespace ParameterMatch

def cons (x : Symbol) (v : Value) (m : ParameterMatch) : ParameterMatch :=
  { m with each := (x, v) :: m.each }

/-- Walks parameters and arguments together until either side runs out. A parameter list may end
in a symbol other than `NIL`, which takes the arguments left over; a parameter is looked at only if
there is an argument for it. -/
def ofParams : (params : Value) → (args : List Value) → Except Error ParameterMatch
  | _, [] => .ok ⟨[], none⟩
  | .pair _ (.symbol x) params, v :: vs => (ofParams params vs).map (cons x v)
  | .pair _ p _, _ :: _ => .error (.type (.parameter p) none)
  | .symbol x, vs => .ok ⟨[], if x.isNil then none else some (x, vs)⟩
  | p, _ => .error (.type (.parameterTail p) none)

/-- The bindings of the match in order, with a new list for the arguments left over. -/
def bindings (m : ParameterMatch) : Fresh Bindings :=
  match m.rest with
  | none => pure m.each
  | some (x, vs) => do
    let v ← Value.ofList vs .nil
    return m.each ++ [(x, v)]

end ParameterMatch

/-- The frame under `parent` that makes bindings in order, a later one in place of an earlier. -/
def Frame.ofBindings (parent : FrameId) (bs : Bindings) : Frame :=
  bs.foldl (fun frame b => frame.define b.1 b.2) (.empty (some parent))

def Frame.ofParams (parent : FrameId) (params : Value) (args : List Value) :
    Except Error (Fresh Frame) :=
  (ParameterMatch.ofParams params args).map fun m => do
    return .ofBindings parent (← m.bindings)

end Lisp
