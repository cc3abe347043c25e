import Lisp.Text.Decimal
import Lisp.Text.Excerpt

/-!
# Read errors

Why source text could not be read. A `ReadFault` is a cause; a `ReadError` is the report made of
it, with the offending token and an excerpt of the source around it.
-/

namespace Lisp

inductive ReadErrorKind
  /-- A token stands where it cannot. -/
  | invalid
  /-- The text ended inside an expression. -/
  | incomplete
  /-- The nesting went past the limit. -/
  | tooDeep
  /-- There was no expression at all. -/
  | empty
  deriving DecidableEq

inductive ReadFault
  | tooDeeplyNested (limit : Nat)
  | unexpectedClosing
  | dotOutsideList
  | dotBeforeElement
  | closingExpected
  | endInsideList
  | endAfterQuote
  | noExpression
  deriving DecidableEq

namespace ReadFault

def kind : ReadFault → ReadErrorKind
  | tooDeeplyNested _ => .tooDeep
  | unexpectedClosing | dotOutsideList | dotBeforeElement | closingExpected => .invalid
  | endInsideList | endAfterQuote => .incomplete
  | noExpression => .empty

def message : ReadFault → String
  | tooDeeplyNested limit =>
    "Expression too deeply nested (max depth: " ++ Text.Decimal.ofNat limit ++ ")"
  | unexpectedClosing => "Unexpected closing parenthesis"
  | dotOutsideList => "Dot outside of a list"
  | dotBeforeElement => "Dot must follow at least one list element"
  | closingExpected => "Expected closing parenthesis after dotted pair"
  | endInsideList => "Unexpected end of input, missing closing parenthesis"
  | endAfterQuote => "Unexpected end of input after quote"
  | noExpression => "No expression in input"

end ReadFault

structure ReadError where
  kind : ReadErrorKind
  message : String
  /-- The source around the failure, on one line. -/
  context : Option String
  /-- The text of the offending token. -/
  found : Option String
  deriving DecidableEq

namespace ReadError

/-- A report with an excerpt of the source around a byte offset. -/
def located (kind : ReadErrorKind) (message source : String) (offset : Nat)
    (found : Option String) : ReadError :=
  ⟨kind, message, some (Text.excerpt source offset), found⟩

def noExpression : ReadError :=
  ⟨ReadFault.noExpression.kind, ReadFault.noExpression.message, none, none⟩

/-- The report in full: the message, then the token and the excerpt on lines of their own. -/
def describe (e : ReadError) : String :=
  e.message ++ (e.found.elim "" ("\nFound: " ++ ·)) ++ (e.context.elim "" ("\nContext: " ++ ·))

end ReadError

end Lisp
