import Lisp.Symbol
import Lisp.Text.Decimal

/-!
# Operators

The closed set of built-in operators. A special form receives its operands unevaluated and is
recognised by its name alone; a primitive receives evaluated arguments, and states how many it
accepts.
-/

namespace Lisp

inductive Arity
  | exactly (n : Nat)
  | atLeast (n : Nat)
  | any
  deriving DecidableEq

namespace Arity

def accepts : Arity → Nat → Bool
  | exactly n, count => count == n
  | atLeast n, count => n ≤ count
  | any, _ => true

/-- The arity as an error message words it. -/
def describe : Arity → String
  | exactly n => Text.Decimal.ofNat n
  | atLeast n => "at least " ++ Text.Decimal.ofNat n
  | any => "any number of"

end Arity

/-- Operators whose operands are not evaluated first. -/
inductive SpecialForm
  | quote
  | set
  | defun
  | cond
  | print
  deriving DecidableEq

namespace SpecialForm

/-- Every special form, in registry order. -/
def all : List SpecialForm := [quote, set, defun, cond, print]

def name : SpecialForm → String
  | quote => "QUOTE"
  | set => "SET"
  | defun => "DEFUN"
  | cond => "COND"
  | print => "PRINT"

end SpecialForm

/-- Operators applied to evaluated arguments. -/
inductive Primitive
  | car
  | cdr
  | cons
  | list
  | isAtom
  | identical
  | equal
  | add
  | sub
  | mul
  | div
  | less
  | greater
  deriving DecidableEq

namespace Primitive

/-- Every primitive, in registry order. -/
def all : List Primitive :=
  [car, cdr, cons, list, isAtom, identical, equal, add, sub, mul, div, less, greater]

def name : Primitive → String
  | car => "CAR"
  | cdr => "CDR"
  | cons => "CONS"
  | list => "LIST"
  | isAtom => "ATOM?"
  | identical => "EQ?"
  | equal => "EQUAL?"
  | add => "+"
  | sub => "-"
  | mul => "*"
  | div => "/"
  | less => "<"
  | greater => ">"

def arity : Primitive → Arity
  | car | cdr | isAtom => .exactly 1
  | cons | identical | equal | less | greater => .exactly 2
  | sub | div => .atLeast 1
  | list | add | mul => .any

end Primitive

inductive Builtin
  | special (form : SpecialForm)
  | primitive (op : Primitive)
  deriving DecidableEq

namespace Builtin

/-- Every operator, special forms first. -/
def all : List Builtin :=
  SpecialForm.all.map special ++ Primitive.all.map primitive

def name : Builtin → String
  | special form => form.name
  | primitive op => op.name

/-- The name, which is in upper case already, as a symbol. -/
def symbol (b : Builtin) : Symbol :=
  ⟨b.name, by cases b with | special form => cases form <;> decide +kernel
                           | primitive op => cases op <;> decide +kernel⟩

/-- The operator of exactly this canonical name. -/
def named? (name : String) : Option Builtin :=
  all.find? fun b => b.name == name

end Builtin

namespace Symbol

def builtin? (s : Symbol) : Option Builtin :=
  Builtin.named? s.name

/-- The symbols known from the start: `NIL`, `TRUE` and the name of every operator. -/
def predefined : List Symbol :=
  nil :: truth :: Builtin.all.map Builtin.symbol

end Symbol

end Lisp
