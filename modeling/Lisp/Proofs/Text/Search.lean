import Lisp.Text.Search

/-! # How often a text stands in another

Counting the places at which a text stands makes "it stands there" and "it stands there once"
facts about one number. A character that stands nowhere else settles the count. -/

namespace Lisp.Text

/-- The number of places at which `part` begins in a row of characters. -/
def occurrences (part : List Char) : List Char → Nat
  | [] => if part.isEmpty then 1 else 0
  | c :: cs => (if part.isPrefixOf (c :: cs) then 1 else 0) + occurrences part cs

theorem holdsChars_iff (part cs : List Char) :
    holdsChars part cs = true ↔ 0 < occurrences part cs := by
  induction cs with
  | nil => cases part <;> simp [holdsChars, occurrences]
  | cons c cs ih =>
      rw [holdsChars, occurrences, Bool.or_eq_true, ih]
      split
      · rename_i hprefix
        exact iff_of_true (.inl hprefix) (by omega)
      · rename_i hprefix
        rw [Nat.zero_add, or_iff_right hprefix]

variable {c : Char} {part before after : List Char}

/-- A text begins nowhere before its first character. -/
theorem occurrences_append (h : c ∉ before) :
    occurrences (c :: part) (before ++ after) = occurrences (c :: part) after := by
  induction before with
  | nil => rfl
  | cons d before ih =>
      obtain ⟨hd, hbefore⟩ := List.ne_and_not_mem_of_not_mem_cons h
      have hfirst : (c == d) = false := beq_eq_false_iff_ne.mpr hd
      rw [List.cons_append, occurrences, List.isPrefixOf, hfirst, ih hbefore]
      simp

theorem occurrences_of_not_mem (h : c ∉ before) : occurrences (c :: part) before = 0 := by
  rw [← List.append_nil before, occurrences_append h]
  rfl

/-- A text whose first character stands nowhere else stands there once. -/
theorem occurrences_once (hbefore : c ∉ before) (hpart : c ∉ part) (hafter : c ∉ after) :
    occurrences (c :: part) (before ++ (c :: part ++ after)) = 1 := by
  have hrest : occurrences (c :: part) (part ++ after) = 0 := by
    apply occurrences_of_not_mem
    simp [hpart, hafter]
  have hprefix : (c :: part).isPrefixOf (c :: (part ++ after)) = true := by
    simp
  rw [occurrences_append hbefore, List.cons_append, occurrences, hrest, hprefix]
  rfl

end Lisp.Text
