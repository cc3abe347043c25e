import Lisp.Machine
import Lisp.Operator.Apply

/-!
# Evaluation

One step of evaluation is written over an evaluator for the expressions one level deeper;
`eval` ties the knot for a given number of levels. With a depth limit the levels are the limit and
running out of them is an error of the language; without one they are fuel.
-/

namespace Lisp

abbrev Evaluator := Value → FrameId → Run Value

namespace Evaluator

/-- Evaluates operands left to right; they must end in `NIL`. -/
def operands (ev : Evaluator) (f : FrameId) : Value → Run (List Value)
  | .pair _ operand rest => do
    let v ← ev operand f
    let vs ← ev.operands f rest
    return v :: vs
  | tail => if tail.isNil then return [] else Run.fail (.notAList (.operands tail))

/-- Applies a function or a primitive to evaluated arguments. -/
def apply (ev : Evaluator) (function : Value) (args : List Value) : Run Value :=
  match function with
  | .closure _ params body frame => do
    Run.emit (.applyClosure params args.length)
    let f ← Run.extend frame params args
    ev body f
  | .symbol s =>
    match s.builtin? with
    | some (.primitive op) => do Run.fresh (← Run.ofExcept (op.apply args))
    | _ => Run.fail (.unknownOperator s)
  | v => Run.fail (.type (.callable v) none)

/-- The symbol that a form is to bind. -/
def target (form : SpecialForm) : Value → Run Symbol
  | .symbol s => pure s
  | v => Run.fail (.type (.target form v) none)

/-- `(QUOTE datum)` is the datum. -/
def quote (args : Value) : Run Value :=
  Run.ofExcept args.first

/-- `(SET name expr)` binds in the current frame and gives the value. -/
def set (ev : Evaluator) (f : FrameId) (args : Value) : Run Value := do
  let x ← target .set (← Run.ofExcept args.first)
  let rest ← Run.ofExcept args.rest
  let v ← ev (← Run.ofExcept rest.first) f
  if ← Run.isRoot f then Run.emit (.setGlobal x v)
  Run.define f x v
  return v

/-- `(DEFUN name params body)` binds a function over the current frame and gives the name. -/
def defun (f : FrameId) (args : Value) : Run Value := do
  let x ← target .defun (← Run.ofExcept args.first)
  let rest ← Run.ofExcept args.rest
  let params ← Run.ofExcept rest.first
  let body ← Run.ofExcept (← Run.ofExcept rest.rest).first
  if ← Run.isRoot f then Run.emit (.defunGlobal x params)
  Run.define f x (← Run.fresh (Value.function params body f))
  return .symbol x

/-- `(COND (test expr) ...)` is the expression of the first clause whose test is not `NIL`; no
other expression and no later test is evaluated. -/
def cond (ev : Evaluator) (f : FrameId) : Value → Run Value
  | .pair _ clause rest => do
    let test ← ev (← Run.ofExcept clause.first) f
    if test.isTruthy then
      ev (← Run.ofExcept (← Run.ofExcept clause.rest).first) f
    else
      ev.cond f rest
  | tail => if tail.isNil then return .nil else Run.fail (.notAList (.first tail))

/-- `(PRINT expr)` writes the value on a line of its own and gives it. -/
def print (ev : Evaluator) (f : FrameId) (args : Value) : Run Value := do
  let v ← ev (← Run.ofExcept args.first) f
  Run.write (v.print ++ "\n")
  return v

def special (ev : Evaluator) (f : FrameId) (args : Value) : SpecialForm → Run Value
  | .quote => quote args
  | .set => ev.set f args
  | .defun => defun f args
  | .cond => ev.cond f args
  | .print => ev.print f args

/-- The special form that stands at the head of a call. -/
def specialForm? : Value → Option SpecialForm
  | .symbol s =>
    match s.builtin? with
    | some (.special form) => some form
    | _ => none
  | _ => none

/-- A call: a special form by its name, otherwise a function applied to its arguments. -/
def call (ev : Evaluator) (f : FrameId) (head args : Value) : Run Value :=
  match specialForm? head with
  | some form => ev.special f args form
  | none => do
    let function ← ev head f
    let vs ← ev.operands f args
    ev.apply function vs

/-- One step: numbers, functions, `NIL` and `TRUE` are their own values, other symbols are looked
up, and pairs are calls. -/
def step (ev : Evaluator) : Evaluator := fun e f =>
  match e with
  | .number _ | .closure .. => pure e
  | .symbol s => if s.isNil || s.isTruth then pure e else Run.lookup f s
  | .pair _ head args => Run.inContext e (ev.call f head args)

end Evaluator

/-- Evaluation over at most `levels` nested expressions; `exhausted` is what happens below them. -/
def eval (exhausted : Stop) : (levels : Nat) → Evaluator
  | 0, _, _ => throw exhausted
  | n + 1, e, f => Evaluator.step (eval exhausted n) e f

/-- How deep expressions may nest in reading and in evaluating; `none` is no limit. -/
structure Limits where
  parse : Option Nat
  eval : Option Nat
  deriving DecidableEq

namespace Limits

def unlimited : Limits := ⟨none, none⟩

/-- Limits under which every input ends with a value or an error. -/
def bounded : Limits := ⟨some 256, some 512⟩

end Limits

/-- Evaluates an expression in a frame. The depth limit bounds the nesting of evaluation if there
is one, and `fuel` does otherwise. -/
def evaluate (limits : Limits) (fuel : Nat) : Evaluator :=
  match limits.eval with
  | some m => eval (.error (.tooDeep m)) m
  | none => eval .outOfFuel fuel

end Lisp
