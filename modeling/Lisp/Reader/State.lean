import Lisp.Datum
import Lisp.Token
import Lisp.Reader.Error

/-!
# Reading, one token at a time

A reader inside an expression keeps the constructs it has entered and not finished, innermost
first. `ReaderState.feed` says what one more token does: it goes on, completes the expression, or
is refused. The depth of an expression is the number of constructs around it, and an expression
may begin only below the limit.
-/

namespace Lisp

/-- A construct that was entered and is not finished. -/
inductive Enclosing
  /-- A list; its elements so far, newest first. -/
  | elements (rev : List Datum)
  /-- A list after its dot; its elements, newest first. -/
  | tail (rev : List Datum)
  /-- A quote mark, whose expression is to come. -/
  | quote

/-- Where a reader stands inside an expression. -/
inductive ReaderState
  /-- An expression, or the end or dot of the innermost list, comes next. -/
  | awaiting (stack : List Enclosing)
  /-- A dotted list is complete but for its closing parenthesis. -/
  | closing (rev : List Datum) (tail : Datum) (stack : List Enclosing)

/-- What a token leads to. -/
inductive ReaderStep
  | more (state : ReaderState)
  | done (datum : Datum)
  | fail (fault : ReadFault)

namespace ReaderState

def start : ReaderState := awaiting []

/-- A finished expression takes its place in the innermost construct. -/
def complete (d : Datum) : List Enclosing → ReaderStep
  | [] => .done d
  | .quote :: stack => complete d.quote stack
  | .elements rev :: stack => .more (awaiting (.elements (d :: rev) :: stack))
  | .tail rev :: stack => .more (closing rev d stack)

/-- An expression inside `stack` would be deeper than the limit admits. -/
def isTooDeep (limit : Option Nat) (stack : List Enclosing) : Bool :=
  limit.any (· ≤ stack.length)

def begin (limit : Option Nat) (stack : List Enclosing) (t : Token) : ReaderStep :=
  if isTooDeep limit stack then
    .fail (.tooDeeplyNested (limit.getD 0))
  else
    match t with
    | .opening => .more (awaiting (.elements [] :: stack))
    | .closing => .fail .unexpectedClosing
    | .quote => .more (awaiting (.quote :: stack))
    | .dot => .fail .dotOutsideList
    | .atom text => complete (.ofAtom text) stack

def feed (limit : Option Nat) : ReaderState → Token → ReaderStep
  | closing rev tail stack, .closing => complete (.ofList rev.reverse tail) stack
  | closing .., _ => .fail .closingExpected
  | awaiting (.elements rev :: stack), .closing => complete (.ofList rev.reverse .nil) stack
  | awaiting (.elements [] :: _), .dot => .fail .dotBeforeElement
  | awaiting (.elements rev :: stack), .dot => .more (awaiting (.tail rev :: stack))
  | awaiting stack, t => begin limit stack t

/-- What is missing if the text ends here. -/
def endFault : ReaderState → ReadFault
  | awaiting [] => .noExpression
  | awaiting (.quote :: _) => .endAfterQuote
  | _ => .endInsideList

end ReaderState

end Lisp
