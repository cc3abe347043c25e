import Lisp.Text.Decimal
import Mathlib.Data.List.Induction
import Mathlib.Data.Nat.Digits.Defs

/-! # Decimal integers as they are read and written

What a row of characters must look like to be an integer, said without the reader, and the law
that a written integer is read back. -/

namespace Lisp.Text.Decimal

/-! ## What is read -/

/-- One or more ASCII digits, which stand for `n` in base ten. -/
def IsNumeral (cs : List Char) (n : Nat) : Prop :=
  cs ≠ [] ∧ (∀ c ∈ cs, '0' ≤ c ∧ c ≤ '9') ∧
    n = Nat.ofDigits 10 (cs.reverse.map fun c => c.toNat - '0'.toNat)

/-- An integer: digits with an optional sign in front. -/
inductive IsInteger : List Char → Int → Prop
  | unsigned {cs : List Char} {n : Nat} : IsNumeral cs n → IsInteger cs n
  | plus {cs : List Char} {n : Nat} : IsNumeral cs n → IsInteger ('+' :: cs) n
  | minus {cs : List Char} {n : Nat} : IsNumeral cs n → IsInteger ('-' :: cs) (-n)

theorem value_append_singleton (cs : List Char) (c : Char) :
    value (cs ++ [c]) = 10 * value cs + (c.toNat - 48) := by
  simp [value]

/-- The value of a row of digits is what positional notation says. -/
theorem value_eq_ofDigits (cs : List Char) :
    value cs = Nat.ofDigits 10 (cs.reverse.map fun c => c.toNat - '0'.toNat) := by
  induction cs using List.reverseRecOn with
  | nil => rfl
  | append_singleton cs c ih =>
      rw [value_append_singleton, ih, List.reverse_append, List.reverse_singleton,
        List.singleton_append, List.map_cons, Nat.ofDigits_cons]
      exact Nat.add_comm _ _

theorem isDigit_iff (c : Char) : c.isDigit = true ↔ '0' ≤ c ∧ c ≤ '9' := by
  simp [Char.isDigit, Char.le_def, UInt32.le_iff_toNat_le]

theorem readDigits?_eq_some_iff {cs : List Char} {n : Nat} :
    readDigits? cs = some n ↔ IsNumeral cs n := by
  unfold readDigits? IsNumeral
  rw [← value_eq_ofDigits]
  constructor
  · intro h
    split at h
    · rename_i hdigits
      simp only [Bool.and_eq_true, Bool.not_eq_true', List.isEmpty_eq_false_iff,
        List.all_eq_true, isDigit_iff] at hdigits
      cases h
      exact ⟨hdigits.1, hdigits.2, rfl⟩
    · cases h
  · rintro ⟨hne, hdigits, rfl⟩
    rw [if_pos]
    simp only [Bool.and_eq_true, Bool.not_eq_true', List.isEmpty_eq_false_iff, List.all_eq_true,
      isDigit_iff]
    exact ⟨hne, hdigits⟩

theorem IsNumeral.isDigit_head {c : Char} {cs : List Char} {n : Nat} (h : IsNumeral (c :: cs) n) :
    c.isDigit = true := by
  rw [isDigit_iff]
  exact h.2.1 c (by simp)

theorem readInt?_minus (cs : List Char) :
    readInt? ('-' :: cs) = (readDigits? cs).map fun k : Nat => -(k : Int) := by
  cases h : readDigits? cs <;> simp [readInt?, h]

theorem readInt?_plus (cs : List Char) :
    readInt? ('+' :: cs) = (readDigits? cs).map fun k : Nat => (k : Int) := by
  cases h : readDigits? cs <;> simp [readInt?, h]

theorem readInt?_unsigned {cs : List Char} (hminus : cs.head? ≠ some '-')
    (hplus : cs.head? ≠ some '+') :
    readInt? cs = (readDigits? cs).map fun k : Nat => (k : Int) := by
  unfold readInt?
  split
  · simp at hminus
  · simp at hplus
  · cases readDigits? cs <;> rfl

theorem readInt?_eq_some_iff {cs : List Char} {n : Int} :
    readInt? cs = some n ↔ IsInteger cs n := by
  constructor
  · intro h
    by_cases hminus : cs.head? = some '-'
    · obtain ⟨rest, rfl⟩ := List.head?_eq_some_iff.mp hminus
      rw [readInt?_minus] at h
      obtain ⟨k, hk, rfl⟩ := Option.map_eq_some_iff.mp h
      exact .minus (readDigits?_eq_some_iff.mp hk)
    · by_cases hplus : cs.head? = some '+'
      · obtain ⟨rest, rfl⟩ := List.head?_eq_some_iff.mp hplus
        rw [readInt?_plus] at h
        obtain ⟨k, hk, rfl⟩ := Option.map_eq_some_iff.mp h
        exact .plus (readDigits?_eq_some_iff.mp hk)
      · rw [readInt?_unsigned hminus hplus] at h
        obtain ⟨k, hk, rfl⟩ := Option.map_eq_some_iff.mp h
        exact .unsigned (readDigits?_eq_some_iff.mp hk)
  · intro h
    cases h with
    | plus hk => rw [readInt?_plus, readDigits?_eq_some_iff.mpr hk, Option.map_some]
    | minus hk => rw [readInt?_minus, readDigits?_eq_some_iff.mpr hk, Option.map_some]
    | unsigned hk =>
        have hsign : ∀ c : Char, c.isDigit = false → cs.head? ≠ some c := by
          intro c hc hhead
          obtain ⟨rest, rfl⟩ := List.head?_eq_some_iff.mp hhead
          rw [hk.isDigit_head] at hc
          cases hc
        rw [readInt?_unsigned (hsign '-' (by decide)) (hsign '+' (by decide)),
          readDigits?_eq_some_iff.mpr hk, Option.map_some]

/-- The integers of 64 bits are read, each as itself, and no others. -/
theorem readInt64?_eq_some_iff {cs : List Char} {k : Int64} :
    readInt64? cs = some k ↔
      ∃ n : Int, IsInteger cs n ∧ -2 ^ 63 ≤ n ∧ n < 2 ^ 63 ∧ k = Int64.ofInt n := by
  rw [readInt64?]
  constructor
  · intro h
    split at h
    · rename_i n hn
      split at h
      · rename_i hrange
        cases h
        refine ⟨n, readInt?_eq_some_iff.mp hn, hrange.1, ?_, rfl⟩
        exact Int.lt_of_le_of_lt hrange.2 (by decide)
      · cases h
    · cases h
  · rintro ⟨n, hn, hlow, hhigh, rfl⟩
    rw [readInt?_eq_some_iff.mpr hn]
    have hmin : Int64.minValue.toInt = -2 ^ 63 := rfl
    have hmax : Int64.maxValue.toInt = 2 ^ 63 - 1 := rfl
    simp only
    rw [if_pos]
    rw [hmin, hmax]
    omega

/-! ## What is written -/

theorem digit_spec : ∀ d < 10, (digit d).isDigit = true ∧ (digit d).toNat - 48 = d := by
  decide

theorem isDigit_of_mem_digits {n : Nat} {c : Char} (h : c ∈ digits n) : c.isDigit = true := by
  fun_induction digits n with
  | case1 n hn =>
      obtain rfl := List.mem_singleton.mp h
      exact (digit_spec n hn).1
  | case2 n hn ih =>
      rcases List.mem_append.mp h with h | h
      · exact ih h
      · obtain rfl := List.mem_singleton.mp h
        exact (digit_spec (n % 10) (Nat.mod_lt n (by decide))).1

theorem digits_ne_nil (n : Nat) : digits n ≠ [] := by
  rw [digits]
  split <;> simp

theorem value_digits (n : Nat) : value (digits n) = n := by
  fun_induction digits n with
  | case1 n hn => simpa [value] using (digit_spec n hn).2
  | case2 n hn ih =>
      rw [value_append_singleton, ih, (digit_spec (n % 10) (Nat.mod_lt n (by decide))).2]
      omega

theorem isNumeral_digits (n : Nat) : IsNumeral (digits n) n := by
  refine ⟨digits_ne_nil n, fun c hc => (isDigit_iff c).mp (isDigit_of_mem_digits hc), ?_⟩
  rw [← value_eq_ofDigits, value_digits]

theorem isInteger_ofInt (n : Int) : IsInteger (ofInt n).toList n := by
  cases n with
  | ofNat k =>
      rw [ofInt, ofNat, String.toList_ofList]
      exact .unsigned (isNumeral_digits k)
  | negSucc k =>
      rw [ofInt, String.toList_ofList, Int.negSucc_eq]
      exact .minus (isNumeral_digits (k + 1))

/-- A written integer of 64 bits is read back. -/
theorem readInt64?_ofInt (k : Int64) : readInt64? (ofInt k.toInt).toList = some k := by
  refine readInt64?_eq_some_iff.mpr ⟨k.toInt, isInteger_ofInt k.toInt, ?_, ?_, ?_⟩
  · exact k.le_toInt
  · exact k.toInt_lt
  · exact k.ofInt_toInt.symm

/-- The text of an integer holds digits, and a sign at most at its front. -/
theorem IsInteger.mem {cs : List Char} {n : Int} (h : IsInteger cs n) {c : Char} (hc : c ∈ cs) :
    c = '+' ∨ c = '-' ∨ c.isDigit = true := by
  have hdigit : ∀ {cs : List Char} {n : Nat}, IsNumeral cs n → c ∈ cs → c.isDigit = true :=
    fun hn hc => (isDigit_iff c).mpr (hn.2.1 c hc)
  cases h with
  | unsigned hn => exact .inr (.inr (hdigit hn hc))
  | plus hn =>
      rcases List.mem_cons.mp hc with rfl | hc
      · exact .inl rfl
      · exact .inr (.inr (hdigit hn hc))
  | minus hn =>
      rcases List.mem_cons.mp hc with rfl | hc
      · exact .inr (.inl rfl)
      · exact .inr (.inr (hdigit hn hc))

theorem IsInteger.ne_nil {cs : List Char} {n : Int} (h : IsInteger cs n) : cs ≠ [] := by
  cases h with
  | unsigned hn => exact hn.1
  | plus hn => simp
  | minus hn => simp

end Lisp.Text.Decimal
