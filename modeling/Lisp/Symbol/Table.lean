import Lisp.Operator

/-!
# Symbol tables

A growing table of the symbols met so far. A symbol of the table is an object with the serial
number of its making, and two of them are the same symbol if they are one object. The table starts
with `NIL`, `TRUE` and the name of every operator; interning a name makes its symbol on first use
and finds it from then on.
-/

namespace Lisp

structure SymbolObject where
  /-- The number of the object in the order of making. -/
  serial : Nat
  symbol : Symbol
  /-- The operator that the symbol names, looked for once when the object is made. -/
  builtin : Option Builtin
  deriving DecidableEq

structure SymbolTable where
  /-- Canonical names with the objects they lead to; the first entry for a name counts. -/
  entries : List (String × SymbolObject)
  /-- The serial number of the next object. -/
  next : Nat

namespace SymbolTable

def empty : SymbolTable := ⟨[], 0⟩

/-- Makes the object of a symbol and enters it under the symbol's name. -/
def add (t : SymbolTable) (s : Symbol) : SymbolObject × SymbolTable :=
  let o : SymbolObject := ⟨t.next, s, s.builtin?⟩
  (o, ⟨(s.name, o) :: t.entries, t.next + 1⟩)

/-- The table before any name is interned. -/
def seeded : SymbolTable :=
  Symbol.predefined.foldl (fun t s => (t.add s).2) empty

/-- The object already in the table for a spelling of its name. -/
def findObject? (t : SymbolTable) (raw : String) : Option SymbolObject :=
  t.entries.lookup (Text.upper raw)

/-- The object for a spelling of its name, added to the table on first use. -/
def internObject (t : SymbolTable) (raw : String) : SymbolObject × SymbolTable :=
  match t.findObject? raw with
  | some o => (o, t)
  | none => t.add (.ofName raw)

def find? (t : SymbolTable) (raw : String) : Option Symbol :=
  (t.findObject? raw).map SymbolObject.symbol

def intern (t : SymbolTable) (raw : String) : Symbol × SymbolTable :=
  let (o, t') := t.internObject raw
  (o.symbol, t')

end SymbolTable

end Lisp
