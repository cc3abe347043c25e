import Lisp.Text.Upper

/-!
# Symbols

A symbol is a name in upper case, so two spellings that differ in case are one symbol, and two
symbols are the same exactly when their names are. `NIL` and `TRUE` are the two that the language
itself speaks about.
-/

namespace Lisp

/-- A name in upper case. -/
structure Symbol where
  /-- The canonical spelling. -/
  name : String
  /-- The name is its own upper-case form. -/
  canonical : Text.upper name = name

namespace Symbol

theorem ext_name {a b : Symbol} (h : a.name = b.name) : a = b := by
  cases a
  cases b
  simpa using h

theorem name_inj {a b : Symbol} : a.name = b.name ↔ a = b :=
  ⟨ext_name, congrArg name⟩

instance : DecidableEq Symbol := fun a b =>
  decidable_of_iff (a.name = b.name) name_inj

/-- The symbol that any spelling of a name stands for. -/
def ofName (raw : String) : Symbol :=
  ⟨Text.upper raw, Text.upper_upper raw⟩

@[simp] theorem ofName_name (s : Symbol) : ofName s.name = s :=
  ext_name s.canonical

/-- The empty list, which is also false. -/
def nil : Symbol := ⟨"NIL", by decide +kernel⟩

def truth : Symbol := ⟨"TRUE", by decide +kernel⟩

def isNil (s : Symbol) : Bool := s == nil

def isTruth (s : Symbol) : Bool := s == truth

end Symbol

end Lisp
