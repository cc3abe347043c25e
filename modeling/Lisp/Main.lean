import Lisp.Repl

/-!
# The interactive program

Carries the dialogue of `Repl` over standard input and output.
-/

namespace Lisp

/-- Writes pieces of the transcript and makes sure that they are seen. -/
def writeEntries (out : IO.FS.Stream) (entries : List ReplEntry) : IO Unit := do
  for entry in entries do out.write entry.bytes
  out.flush

/-- Asks for lines until the dialogue ends. -/
partial def converse (input out : IO.FS.Stream) (r : Repl) : IO Unit := do
  writeEntries out [r.prompt]
  match Text.lines (← input.getLine) with
  | [] => writeEntries out [.farewell]
  | line :: _ =>
    let (entries, next) := r.line line
    writeEntries out entries
    match next with
    | some r' => converse input out r'
    | none => return

end Lisp

def main : IO UInt32 := do
  let out ← IO.getStdout
  Lisp.writeEntries out [.banner]
  Lisp.converse (← IO.getStdin) out .start
  return 0
