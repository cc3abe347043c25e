/-!
# Output sinks

Where printed text goes: a row of bytes that may be limited. A text that fits only in part leaves
the part that fits.
-/

namespace Lisp

/-- The bytes received so far and how many more are accepted; `none` is no limit. -/
structure Sink where
  bytes : ByteArray
  room : Option Nat

namespace Sink

def empty (room : Option Nat) : Sink := ⟨.empty, room⟩

/-- The sink with bytes added that are known to fit. -/
def append (s : Sink) (bytes : ByteArray) : Sink :=
  ⟨s.bytes ++ bytes, s.room.map (· - bytes.size)⟩

def accepts (s : Sink) (n : Nat) : Bool :=
  s.room.all (n ≤ ·)

/-- Writes a text; the answer says whether all of it was accepted. -/
def write (s : Sink) (text : String) : Bool × Sink :=
  let bytes := text.toUTF8
  if s.accepts bytes.size then
    (true, s.append bytes)
  else
    (false, s.append (bytes.extract 0 (s.room.getD 0)))

end Sink

end Lisp
