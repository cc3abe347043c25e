import Lisp.Error
import Lisp.Proofs.Text.Decimal
import Lisp.Proofs.Text.Search
import Lisp.Proofs.Text.Upper

/-! # The call that a type error names

Whether a type error has its call already is read off its text, and the text quotes values. No
value can forge the mark: names are in upper case, so a printed form holds no small letter, and the
words around it do not hold the first letter of the mark. -/

namespace Lisp

/-! ## Printed forms hold no small letter -/

theorem Text.Decimal.IsInteger.not_isLower {cs : List Char} {n : Int} (h : IsInteger cs n) {c : Char}
    (hc : c ∈ cs) : c.isLower = false := by
  rcases h.mem hc with rfl | rfl | hdigit
  · rfl
  · rfl
  · apply not_isLower_of_toNat
    have := toNat_of_isDigit hdigit
    omega

theorem Symbol.not_isLower_of_mem {s : Symbol} {c : Char} (h : c ∈ s.name.toList) :
    c.isLower = false := by
  rw [← s.canonical] at h
  exact Text.not_isLower_of_mem_upper h

namespace Value

theorem not_isLower_of_mem_printAtom {v : Value} {c : Char} (h : c ∈ v.printAtom) :
    c.isLower = false := by
  cases v with
  | number n => exact (Text.Decimal.isInteger_ofInt n.toInt).not_isLower h
  | symbol s => exact s.not_isLower_of_mem h
  | closure i params body frame =>
      have hall : "#<FUNCTION>".toList.all (fun c => !c.isLower) = true := by decide
      simpa using List.all_eq_true.mp hall c h
  | pair i first rest => cases h

/-- Writing a value adds no small letter to what stands after it. -/
theorem filter_isLower_write (v : Value) (inTail : Bool) (after : List Char) :
    (v.write inTail after).filter Char.isLower = after.filter Char.isLower := by
  have hatom : ∀ v : Value, v.printAtom.filter Char.isLower = [] := by
    intro v
    rw [List.filter_eq_nil_iff]
    intro c hc
    rw [not_isLower_of_mem_printAtom hc]
    exact Bool.false_ne_true
  induction v generalizing inTail after with
  | pair i first rest ihfirst ihrest =>
      rw [write, List.filter_cons_of_neg (by cases inTail <;> decide), ihfirst, ihrest]
  | _ =>
      cases inTail with
      | false => simp [write, hatom]
      | true =>
          have hclosing : Char.isLower ')' = false := rfl
          have hspace : Char.isLower ' ' = false := rfl
          have hdot : Char.isLower '.' = false := rfl
          simp only [write]
          split <;> simp [hatom, hclosing, hspace, hdot]

theorem not_mem_print {c : Char} (hc : c.isLower = true) (v : Value) : c ∉ v.print.toList := by
  have hnone := v.filter_isLower_write false []
  rw [List.filter_nil, List.filter_eq_nil_iff] at hnone
  rw [print, String.toList_ofList]
  exact fun hmem => hnone c hmem hc

end Value

/-! ## The mark stands in the text of a type error once, or not at all -/

theorem Builtin.not_mem_name {c : Char} (hc : c.isLower = true) (b : Builtin) :
    c ∉ b.name.toList := by
  intro hmem
  rw [b.symbol.not_isLower_of_mem hmem] at hc
  cases hc

/-- The first letter of the mark stands nowhere in the description of a fault. -/
theorem TypeFault.not_mem_message (fault : TypeFault) : 'w' ∉ fault.message.toList := by
  have hprint : ∀ v : Value, 'w' ∉ v.print.toList := Value.not_mem_print rfl
  have hname : ∀ b : Builtin, 'w' ∉ b.name.toList := Builtin.not_mem_name rfl
  unfold message
  cases fault with
  | numeric op v =>
      simp only [String.toList_append, List.mem_append, not_or]
      exact ⟨⟨hname (.primitive op), by decide⟩, hprint v⟩
  | target form v =>
      simp only [String.toList_append, List.mem_append, not_or]
      exact ⟨⟨hname (.special form), by decide⟩, hprint v⟩
  | callable v => simp [hprint]
  | parameter v => simp [hprint]
  | parameterTail v => simp [hprint]

namespace Error

theorem toList_contextMark : contextMark.toList = 'w' :: "hile evaluating:".toList := by
  decide

theorem typeText_none (fault : TypeFault) : typeText fault none = fault.message := by
  simp [typeText]

theorem typeText_some (fault : TypeFault) (call : Value) :
    typeText fault (some call) =
      fault.message ++ "\n  Context: while evaluating: " ++ call.print := by
  simp [typeText, contextMark, String.append_assoc]

theorem occurrences_contextMark_none (fault : TypeFault) :
    Text.occurrences contextMark.toList (typeText fault none).toList = 0 := by
  rw [typeText_none, toList_contextMark]
  exact Text.occurrences_of_not_mem fault.not_mem_message

theorem occurrences_contextMark_some (fault : TypeFault) (call : Value) :
    Text.occurrences contextMark.toList (typeText fault (some call)).toList = 1 := by
  have htext : (typeText fault (some call)).toList =
      (fault.message.toList ++ "\n  Context: ".toList) ++
        (contextMark.toList ++ (' ' :: call.print.toList)) := by
    simp [typeText]
  rw [htext, toList_contextMark]
  refine Text.occurrences_once ?_ (by decide) ?_
  · simp [fault.not_mem_message]
  · simpa using call.not_mem_print rfl

/-- The first call that a type error leaves is noted. -/
theorem inContext_type_none (call : Value) (fault : TypeFault) :
    inContext call (type fault none) = type fault (some call) := by
  have hfree : Text.holds (typeText fault none) contextMark = false := by
    rw [Bool.eq_false_iff, ne_eq, Text.holds, Text.holdsChars_iff, occurrences_contextMark_none]
    exact Nat.lt_irrefl 0
  rw [inContext, hfree]
  rfl

/-- A call that is noted stays, whatever calls the error leaves later. -/
theorem inContext_type_some (call inner : Value) (fault : TypeFault) :
    inContext call (type fault (some inner)) = type fault (some inner) := by
  have hmarked : Text.holds (typeText fault (some inner)) contextMark = true := by
    rw [Text.holds, Text.holdsChars_iff, occurrences_contextMark_some]
    exact Nat.one_pos
  rw [inContext, hmarked]
  rfl

theorem inContext_inContext (outer inner : Value) (e : Error) :
    (e.inContext inner).inContext outer = e.inContext inner := by
  cases e with
  | type fault context =>
      cases context with
      | none => rw [inContext_type_none, inContext_type_some]
      | some call => rw [inContext_type_some, inContext_type_some]
  | _ => rfl

end Error

end Lisp
