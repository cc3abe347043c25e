import Lisp.Reader.Error
import Lisp.Text.Search
import Lisp.Value.Printer

/-!
# Errors

Everything that can go wrong in reading and evaluating, by cause; the wording stands in one place
for each cause.
-/

namespace Lisp

/-- A list was needed. -/
inductive ListFault
  /-- The first element of something that is not a pair was asked for. -/
  | first (v : Value)
  /-- The rest of something that is not a pair was asked for. -/
  | rest (v : Value)
  /-- The operands of a call end in something other than `NIL`. -/
  | operands (tail : Value)
  deriving DecidableEq

namespace ListFault

/-- The value as the object of a complaint. -/
def subject : Value → String
  | .closure .. => "a function"
  | v => "atom " ++ v.print

def message : ListFault → String
  | first v => "cannot take the first element of " ++ subject v
  | rest v => "cannot take the rest of " ++ subject v
  | operands tail => "argument list ends in " ++ tail.print

end ListFault

/-- A value of another type was needed. -/
inductive TypeFault
  /-- A primitive of numbers was given something else. -/
  | numeric (op : Primitive) (v : Value)
  /-- A value other than a function or a symbol was called. -/
  | callable (v : Value)
  /-- A form that binds was given something other than a symbol to bind. -/
  | target (form : SpecialForm) (v : Value)
  /-- An argument met a parameter that is not a symbol. -/
  | parameter (v : Value)
  /-- Arguments were left for a parameter list that ends in something other than a symbol. -/
  | parameterTail (v : Value)
  deriving DecidableEq

namespace TypeFault

def message : TypeFault → String
  | numeric op v => op.name ++ " requires numeric arguments, got " ++ v.print
  | callable v => "cannot apply " ++ v.print
  | target form v => form.name ++ " requires a symbol to bind, got " ++ v.print
  | parameter v => "parameter must be a symbol, got " ++ v.print
  | parameterTail v => "parameter list must end in a symbol, got " ++ v.print

end TypeFault

inductive Error
  | unreadable (e : ReadError)
  | unbound (s : Symbol)
  | notAList (fault : ListFault)
  | arity (operator : String) (expected : Arity) (got : Nat)
  /-- A type error; `context` is the call that raised it, once that is known. -/
  | type (fault : TypeFault) (context : Option Value)
  | divisionByZero
  | unknownOperator (s : Symbol)
  | tooDeep (limit : Nat)
  | sinkClosed
  deriving DecidableEq

namespace Error

/-- The words that go before a call noted on a type error. -/
def contextMark : String := "while evaluating:"

/-- The text of a type error: the cause, and the call it was raised in if that is noted. -/
def typeText (fault : TypeFault) (context : Option Value) : String :=
  fault.message ++ context.elim "" fun call => "\n  Context: " ++ contextMark ++ " " ++ call.print

/-- Notes on a type error the call it was raised in, unless its text shows that an inner call was
noted before. -/
def inContext (call : Value) : Error → Error
  | type fault context =>
    if Text.holds (typeText fault context) contextMark then type fault context
    else type fault (some call)
  | e => e

def message : Error → String
  | unreadable e => "SyntaxError: " ++ e.describe
  | unbound s => "Unbound symbol: " ++ s.name
  | notAList fault => "Not a list: " ++ fault.message
  | arity operator expected got =>
    "ArityMismatch: " ++ operator ++ " expected " ++ expected.describe ++ " arguments, got " ++
      Text.Decimal.ofNat got
  | type fault context => "Type error: " ++ typeText fault context
  | divisionByZero => "Division by zero"
  | unknownOperator s => "Unknown operator: " ++ s.name
  | tooDeep limit => "Evaluation depth limit exceeded (max: " ++ Text.Decimal.ofNat limit ++ ")"
  | sinkClosed => "Output error: sink closed"

end Error

/-- Checks an argument count against an arity, reporting the operator on a mismatch. -/
def Arity.check (expected : Arity) (operator : String) (got : Nat) : Except Error Unit :=
  if expected.accepts got then .ok () else .error (.arity operator expected got)

namespace Value

def first : Value → Except Error Value
  | pair _ a _ => .ok a
  | v => .error (.notAList (.first v))

def rest : Value → Except Error Value
  | pair _ _ d => .ok d
  | v => .error (.notAList (.rest v))

end Value

end Lisp
