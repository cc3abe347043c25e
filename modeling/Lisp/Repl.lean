import Lisp.Interpreter
import Lisp.Text.Lines

/-!
# The read-eval-print loop

A dialogue with one interpreter, line by line. Lines are collected until they hold complete
expressions, which are then evaluated in order. A line that is a command is obeyed when nothing is
pending. The dialogue is a function from the lines to a transcript; only the outermost program
reads and writes.
-/

namespace Lisp

inductive ReplEntry
  | banner
  /-- The invitation to type; `pending` says that an expression is unfinished. -/
  | prompt (pending : Bool)
  /-- What evaluation printed. -/
  | printed (bytes : ByteArray)
  | value (v : Value)
  | error (e : Error)
  | help
  | environment (bindings : Bindings)
  | farewell

namespace ReplEntry

/-- Lines of text, each with its end. -/
def block (lines : List String) : String :=
  String.join (lines.map (· ++ "\n"))

def bannerText : String := block
  ["ConsLisp interpreter",
   "Enter S-expressions like: (+ 1 2) or (DEFUN SQUARE (X) (* X X))",
   "Type :help for more commands, or Ctrl+C to exit.",
   ""]

def helpText : String := block
  ["ConsLisp commands:",
   "  :help      - Show this help message",
   "  :env       - Show current global bindings",
   "  :quit      - Exit the interpreter",
   "  :exit      - Exit the interpreter",
   "  Ctrl+C     - Cancel unfinished input, or exit",
   "",
   "Language:",
   "  Numbers: 42, -5 (64-bit, wrapping)",
   "  Symbols: case-insensitive, NIL is false and the empty list",
   "  Special forms: QUOTE 'x, SET, DEFUN, COND, PRINT",
   "  Lists: CAR, CDR, CONS, LIST, ATOM?, EQ?, EQUAL?",
   "  Arithmetic: +, -, *, /, <, >",
   "",
   "Examples:",
   "  (+ 1 2 3)",
   "  (CONS 1 '(2 3))",
   "  (DEFUN FACT (N) (COND ((< N 1) 1) (TRUE (* N (FACT (- N 1))))))",
   "  (DEFUN F (A . REST) (LIST A REST))",
   "  (COND ((> 2 1) 'YES) (TRUE 'NO))",
   ""]

/-- A name in a column of fifteen characters. -/
def cell (name : String) : String :=
  "  " ++ name ++ String.ofList (List.replicate (15 - name.length) ' ')

/-- Names in rows of four, the first at column `col`. -/
def table (col : Nat) : List String → String
  | [] => if col % 4 = 0 then "" else "\n"
  | name :: names => cell name ++ (if (col + 1) % 4 = 0 then "\n" else "") ++ table (col + 1) names

/-- The name is bound to its own symbol, as the names of the language are from the start. -/
def isSelfBound (b : Symbol × Value) : Bool :=
  b.2.symbol? == some b.1

def selfBoundText (bs : Bindings) : String :=
  if bs.isEmpty then "" else
    "Built-in symbols (" ++ Text.Decimal.ofNat bs.length ++ "):\n" ++
      table 0 (bs.map (·.1.name)) ++ "\n"

def userDefinedText (bs : Bindings) : String :=
  if bs.isEmpty then "" else
    "User-defined values (" ++ Text.Decimal.ofNat bs.length ++ "):\n" ++
      block (bs.map fun b => "  " ++ b.1.name ++ " = " ++ b.2.print)

/-- Bindings in two sections: names bound to themselves, and all others. -/
def environmentText (bs : Bindings) : String :=
  if bs.isEmpty then "Environment is empty.\n" else
    "Environment bindings (" ++ Text.Decimal.ofNat bs.length ++ " total):\n\n" ++
      selfBoundText (bs.filter isSelfBound) ++
      userDefinedText (bs.filter fun b => !isSelfBound b)

def bytes : ReplEntry → ByteArray
  | banner => bannerText.toUTF8
  | prompt pending => (if pending then "     ...> " else "conslisp> ").toUTF8
  | printed bytes => bytes
  | value v => ("=> " ++ v.print ++ "\n").toUTF8
  | error e => ("Error: " ++ e.message ++ "\n").toUTF8
  | help => helpText.toUTF8
  | environment bs => (environmentText bs).toUTF8
  | farewell => "Goodbye!\n".toUTF8

end ReplEntry

/-- What the collected lines amount to. -/
inductive BufferRead
  | complete (data : List Datum)
  | needsMore
  | invalid (e : ReadError)

/-- The dialogue between two lines. -/
structure Repl where
  machine : Machine
  /-- The lines of the unfinished expression, each with its end. -/
  buffer : String

namespace Repl

def start : Repl := ⟨.initial none, ""⟩

/-- The interpreter of the dialogue; its depth limits make fuel needless. -/
def interpreter : Interpreter := ⟨.bounded, 0⟩

/-- Reads the collected lines. An expression that only lacks its end asks for more. -/
def readBuffer (limit : Option Nat) (buffer : String) : BufferRead :=
  match (Reader.ofSource buffer limit).readAll with
  | .ok data => .complete data
  | .error e => if e.kind = .incomplete then .needsMore else .invalid e

/-- The bytes printed since the last time, and the machine with an empty sink. -/
def takePrinted (m : Machine) : ReplEntry × Machine :=
  (.printed m.sink.bytes, { m with sink := .empty none })

/-- Evaluates expressions in order up to the first error. -/
def evaluateEach : List Datum → Machine → List ReplEntry × Machine
  | [], m => ([], m)
  | d :: ds, m =>
    match (interpreter.evaluate d).run m with
    | .ok v m' =>
      let (printed, m') := takePrinted m'
      let (entries, m') := evaluateEach ds m'
      (printed :: .value v :: entries, m')
    | .error (.error e) m' =>
      let (printed, m') := takePrinted m'
      ([printed, .error e], m')
    | .error .outOfFuel m' =>
      let (printed, m') := takePrinted m'
      ([printed], m')

/-- Adds a line to the collected ones and deals with them if they are complete. -/
def collect (r : Repl) (line : String) : List ReplEntry × Repl :=
  let buffer := r.buffer ++ line ++ "\n"
  match readBuffer interpreter.limits.parse buffer with
  | .needsMore => ([], { r with buffer })
  | .invalid e => ([.error (.unreadable e)], { r with buffer := "" })
  | .complete data =>
    let (entries, machine) := evaluateEach data r.machine
    (entries, ⟨machine, ""⟩)

/-- What a line leads to; no dialogue is left after the line that ends it. -/
def line (r : Repl) (line : String) : List ReplEntry × Option Repl :=
  if r.buffer.isEmpty then
    match Text.trim line with
    | "" => ([], some r)
    | ":help" => ([.help], some r)
    | ":env" => ([.environment (r.machine.heap.bindings Interpreter.global)], some r)
    | ":quit" | ":exit" => ([.farewell], none)
    | _ => (r.collect line).map id some
  else
    (r.collect line).map id some

def prompt (r : Repl) : ReplEntry := .prompt !r.buffer.isEmpty

def transcriptFrom (r : Repl) : List String → List ReplEntry
  | [] => [r.prompt, .farewell]
  | line :: lines =>
    match r.line line with
    | (entries, some r') => r.prompt :: entries ++ r'.transcriptFrom lines
    | (entries, none) => r.prompt :: entries

def transcript (input : String) : List ReplEntry :=
  .banner :: start.transcriptFrom (Text.lines input)

def output (input : String) : ByteArray :=
  (transcript input).foldl (fun out entry => out ++ entry.bytes) .empty

end Repl

end Lisp
