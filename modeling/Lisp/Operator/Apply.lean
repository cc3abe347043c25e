import Lisp.Error
import Lisp.Value.Equality

/-!
# Applying primitives

What each primitive does with evaluated arguments. The argument count is checked first; after that
the leftmost argument at fault decides the error. Arithmetic is that of 64-bit integers: it wraps,
and division truncates toward zero.
-/

namespace Lisp.Primitive

/-- The number that an argument of a numeric primitive must be. -/
def number (op : Primitive) : Value → Except Error Int64
  | .number n => .ok n
  | v => .error (.type (.numeric op v) none)

def numbers (op : Primitive) (args : List Value) : Except Error (List Int64) :=
  args.mapM op.number

def divideBy (n : Int64) (v : Value) : Except Error Int64 := do
  let d ← div.number v
  if d = 0 then .error .divisionByZero else .ok (n / d)

/-- The difference of the first number and the others; a single number is negated. -/
def difference : List Int64 → Int64
  | [] => 0
  | [n] => -n
  | n :: ns => ns.foldl (· - ·) n

/-- The quotient of the first argument by each of the others in turn; a single argument divides
one. -/
def quotient : List Value → Except Error Int64
  | [] => .ok 1
  | [v] => divideBy 1 v
  | v :: vs => do vs.foldlM divideBy (← div.number v)

def compare (op : Primitive) (holds : Int64 → Int64 → Bool) (v w : Value) : Except Error Value := do
  let m ← op.number v
  let n ← op.number w
  return .ofBool (holds m n)

/-- What a primitive gives for arguments of a count that it accepts: an error, or a value that may
have to be made first. -/
def answer (op : Primitive) (args : List Value) : Except Error (Fresh Value) :=
  match op, args with
  | car, [v] => v.first.map pure
  | cdr, [v] => v.rest.map pure
  | cons, [a, d] => .ok (Value.cons a d)
  | list, vs => .ok (Value.ofList vs .nil)
  | isAtom, [v] => .ok (pure (.ofBool v.isAtom))
  | identical, [v, w] => .ok (pure (.ofBool (v.identical w)))
  | equal, [v, w] => .ok (pure (.ofBool (v.equal w)))
  | add, vs => (op.numbers vs).map fun ns => pure (.number (ns.foldl (· + ·) 0))
  | sub, vs => (op.numbers vs).map fun ns => pure (.number (difference ns))
  | mul, vs => (op.numbers vs).map fun ns => pure (.number (ns.foldl (· * ·) 1))
  | div, vs => (quotient vs).map fun n => pure (.number n)
  | less, [v, w] => (op.compare (fun m n => decide (m < n)) v w).map pure
  | greater, [v, w] => (op.compare (fun m n => decide (n < m)) v w).map pure
  | op, vs => .error (.arity op.name op.arity vs.length)

def apply (op : Primitive) (args : List Value) : Except Error (Fresh Value) := do
  op.arity.check op.name args.length
  op.answer args

end Lisp.Primitive
