import Lisp.Text.Upper
import Lisp.Token

/-! # What upper case leaves alone

No character but itself becomes a delimiter, a dot, a sign or a digit in upper case, and each of
these stays what it is. So folding a name to upper case makes no token end earlier, and no integer
out of a name. -/

namespace Lisp.Text

/-- The characters that decide where tokens end and what an atom is: delimiters, the dot, signs and
ASCII digits. -/
def isReserved (c : Char) : Bool :=
  Token.isDelimiter c || c == '.' || c == '+' || c == '-' || c.isDigit

/-- The code points of the reserved characters, as spans with both ends included. -/
def reservedSpans : List (Nat × Nat) :=
  [(9, 13), (0x20, 0x20), (0x27, 0x29), (0x2B, 0x2B), (0x2D, 0x2E), (0x30, 0x39), (0x3B, 0x3B),
    (0x85, 0x85), (0xA0, 0xA0), (0x1680, 0x1680), (0x2000, 0x200A), (0x2028, 0x2029),
    (0x202F, 0x202F), (0x205F, 0x205F), (0x3000, 0x3000)]

theorem toNat_of_isDigit {c : Char} (h : c.isDigit = true) : 0x30 ≤ c.toNat ∧ c.toNat ≤ 0x39 := by
  simp only [Char.isDigit, Bool.and_eq_true, decide_eq_true_eq, UInt32.le_iff_toNat_le,
    ge_iff_le] at h
  exact h

theorem exists_span_of_isReserved {c : Char} (h : isReserved c = true) :
    ∃ span ∈ reservedSpans, span.1 ≤ c.toNat ∧ c.toNat ≤ span.2 := by
  have hblank : isBlank c = true → ∃ span ∈ reservedSpans, span.1 ≤ c.toNat ∧ c.toNat ≤ span.2 := by
    intro hc
    simp only [isBlank, Bool.or_eq_true, Bool.and_eq_true, beq_iff_eq, decide_eq_true_eq] at hc
    simp only [reservedSpans, List.mem_cons, List.not_mem_nil, or_false, exists_eq_or_imp,
      exists_eq_left]
    omega
  simp only [isReserved, Token.isDelimiter, Bool.or_eq_true, beq_iff_eq] at h
  rcases h with (((((((h | rfl) | rfl) | rfl) | rfl) | rfl) | rfl) | rfl) | h
  · exact hblank h
  · exact ⟨(0x27, 0x29), by decide⟩
  · exact ⟨(0x27, 0x29), by decide⟩
  · exact ⟨(0x27, 0x29), by decide⟩
  · exact ⟨(0x3B, 0x3B), by decide⟩
  · exact ⟨(0x2D, 0x2E), by decide⟩
  · exact ⟨(0x2B, 0x2B), by decide⟩
  · exact ⟨(0x2D, 0x2E), by decide⟩
  · exact ⟨(0x30, 0x39), by decide, toNat_of_isDigit h⟩

/-! ## The tables produce no reserved character -/

/-- No form that the run produces lies in the span. -/
def CaseRun.clearOf (r : CaseRun) (span : Nat × Nat) : Bool :=
  Nat.blt (r.upper + (r.last - r.first)) span.1 || Nat.blt span.2 r.upper

theorem CaseTable.sources_clear :
    (sources.all fun r => reservedSpans.all r.clearOf) = true := by
  decide +kernel

theorem CaseTable.expansions_ne_nil : (expansions.all fun e => !e.2.isEmpty) = true := by
  decide +kernel

theorem eq_of_toUpper_isReserved :
    ∀ n < 128, isReserved (Char.ofNat n).toUpper = true →
      (Char.ofNat n).toUpper = Char.ofNat n := by
  decide +kernel

/-- No form that comes from the tables is reserved. -/
theorem not_isReserved_of_mem_sources {r : CaseRun} {c u : Nat} (hr : r ∈ CaseTable.sources)
    (h : r.upper? c = some u) : isReserved (Char.ofNat u) = false := by
  have hvalid : u.isValidChar := by
    have hsettled := settled_of_mem_sources hr h
    simp only [Nat.isValidChar] at hsettled ⊢
    omega
  have hnat : (Char.ofNat u).toNat = u := by
    rw [Char.ofNat, dif_pos hvalid]
    rfl
  rw [Bool.eq_false_iff]
  intro hreserved
  obtain ⟨span, hspan, hlow, hhigh⟩ := exists_span_of_isReserved hreserved
  have hclear := List.all_eq_true.1 (List.all_eq_true.1 CaseTable.sources_clear r hr) span hspan
  simp only [CaseRun.clearOf, Bool.or_eq_true, Nat.blt_eq] at hclear
  simp only [CaseRun.upper?, Option.ite_none_right_eq_some, Option.some.injEq] at h
  rw [hnat] at hlow hhigh
  omega

/-! ## Reserved characters are in upper case -/

theorem reservedSpans_fixed :
    (reservedSpans.all fun span => (List.range' span.1 (span.2 + 1 - span.1)).all fun n =>
      upperChar (Char.ofNat n) == [Char.ofNat n]) = true := by
  decide +kernel

/-- A reserved character is its own upper-case form. -/
theorem upperChar_of_isReserved {c : Char} (h : isReserved c = true) : upperChar c = [c] := by
  obtain ⟨span, hspan, hlow, hhigh⟩ := exists_span_of_isReserved h
  have hmem : c.toNat ∈ List.range' span.1 (span.2 + 1 - span.1) := by
    rw [List.mem_range'_1]
    omega
  have hfixed := List.all_eq_true.1 (List.all_eq_true.1 reservedSpans_fixed span hspan) _ hmem
  simpa using hfixed

/-! ## Characters and texts in upper case -/

/-- A reserved character in an upper-case form was there before. -/
theorem eq_of_mem_upperChar {c d : Char} (h : d ∈ upperChar c) (hd : isReserved d = true) :
    c = d := by
  by_cases hc : c.toNat < 128
  · have hupper : d = c.toUpper := by simpa [upperChar, hc] using h
    have hfix := eq_of_toUpper_isReserved c.toNat hc
    rw [Char.ofNat_toNat, ← hupper] at hfix
    exact (hfix hd).symm
  · simp only [upperChar, hc, if_false, List.mem_map] at h
    obtain ⟨u, hu, rfl⟩ := h
    rcases mem_upperCode hu with ⟨rfl, -⟩ | ⟨r, hr, hru⟩
    · rw [Char.ofNat_toNat]
    · rw [not_isReserved_of_mem_sources hr hru] at hd
      cases hd

theorem upperChar_ne_nil (c : Char) : upperChar c ≠ [] := by
  rw [upperChar]
  split
  · simp
  · rw [upperCode]
    split
    · simp
    · cases he : CaseTable.expansions.lookup c.toNat with
      | none => simp
      | some us =>
          obtain ⟨l₁, l₂, hmem, -⟩ := List.lookup_eq_some_iff.1 he
          have hne := List.all_eq_true.1 CaseTable.expansions_ne_nil (c.toNat, us) (by simp [hmem])
          simpa using hne

theorem not_isLower_toUpper :
    ∀ n < 128, (Char.ofNat n).toUpper.isLower = false := by
  decide +kernel

theorem not_isLower_of_toNat {c : Char} (h : c.toNat < 97 ∨ 128 ≤ c.toNat) :
    c.isLower = false := by
  rw [Bool.eq_false_iff]
  intro hlower
  obtain ⟨hlow, hhigh⟩ := Bool.and_eq_true_iff.mp hlower
  have hlow' : 97 ≤ c.toNat := of_decide_eq_true hlow
  have hhigh' : c.toNat ≤ 122 := of_decide_eq_true hhigh
  omega

/-- No upper-case form holds a small ASCII letter. -/
theorem not_isLower_of_mem_upperChar {c d : Char} (h : d ∈ upperChar c) : d.isLower = false := by
  by_cases hc : c.toNat < 128
  · have hupper : d = c.toUpper := by simpa [upperChar, hc] using h
    have hlower := not_isLower_toUpper c.toNat hc
    rwa [Char.ofNat_toNat, ← hupper] at hlower
  · simp only [upperChar, hc, if_false, List.mem_map] at h
    obtain ⟨u, hu, rfl⟩ := h
    apply not_isLower_of_toNat
    rcases mem_upperCode hu with ⟨rfl, -⟩ | ⟨r, hr, hru⟩
    · rw [Char.ofNat_toNat]
      exact .inr (Nat.le_of_not_lt hc)
    · have hsettled := settled_of_mem_sources hr hru
      have hvalid : u.isValidChar := by
        simp only [Nat.isValidChar] at hsettled ⊢
        omega
      have hnat : (Char.ofNat u).toNat = u := by
        rw [Char.ofNat, dif_pos hvalid]
        rfl
      rw [hnat]
      exact hsettled.imp id And.left

theorem not_isLower_of_mem_upper {s : String} {d : Char} (h : d ∈ (upper s).toList) :
    d.isLower = false := by
  rw [upper, String.toList_ofList] at h
  obtain ⟨c, -, hd⟩ := List.mem_flatMap.mp h
  exact not_isLower_of_mem_upperChar hd

/-- A text whose upper-case form is made of reserved characters is that form. -/
theorem flatMap_upperChar_of_isReserved {cs : List Char}
    (h : ∀ d ∈ cs.flatMap upperChar, isReserved d = true) : cs.flatMap upperChar = cs := by
  refine flatMap_upperChar_of_fixed fun c hc => ?_
  obtain ⟨d, hd⟩ := List.exists_mem_of_ne_nil _ (upperChar_ne_nil c)
  have hcd := eq_of_mem_upperChar hd (h d (List.mem_flatMap.2 ⟨c, hc, hd⟩))
  subst d
  exact upperChar_of_mem_upperChar hd

end Lisp.Text
