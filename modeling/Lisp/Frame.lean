import Lisp.Value
import Lisp.Text.Quoted

/-!
# Frames

A frame binds names to values and may have a parent, to which look-ups fall back. It binds each
name once. Bindings that are listed are listed in the order of their names.
-/

namespace Lisp

abbrev Bindings := List (Symbol × Value)

namespace Bindings

/-- Binds a name, in place of the binding it has. -/
def put (x : Symbol) (v : Value) : Bindings → Bindings
  | [] => [(x, v)]
  | (y, w) :: rest => if y = x then (x, v) :: rest else (y, w) :: put x v rest

/-- Adds a binding at its place by name, unless the name is bound. -/
def insertNew (x : Symbol) (v : Value) : Bindings → Bindings
  | [] => [(x, v)]
  | (y, w) :: rest =>
    if x.name < y.name then (x, v) :: (y, w) :: rest
    else if x = y then (y, w) :: rest
    else (y, w) :: insertNew x v rest

/-- The bindings in the order of their names; of two for one name the first is kept. -/
def sorted (bs : Bindings) : Bindings :=
  bs.foldl (fun sorted b => insertNew b.1 b.2 sorted) []

end Bindings

structure Frame where
  bindings : Bindings
  parent : Option FrameId

namespace Frame

def empty (parent : Option FrameId) : Frame := ⟨[], parent⟩

/-- The value bound to a name in this very frame. -/
def lookup? (f : Frame) (x : Symbol) : Option Value :=
  f.bindings.lookup x

def define (f : Frame) (x : Symbol) (v : Value) : Frame :=
  { f with bindings := f.bindings.put x v }

/-- The names bound in this very frame and whether it has a parent, in one line. -/
def inspect (f : Frame) : String :=
  let names := f.bindings.sorted.map fun b => Text.quoted b.1.name
  "Environment \x7b bindings: [" ++ ", ".intercalate names ++ "], has_parent: " ++
    (if f.parent.isSome then "true" else "false") ++ " \x7d"

end Frame

end Lisp
