import Lisp.Proofs.Operator.Arithmetic

/-! # Division

A quotient is taken by one divisor after the other, each time truncated toward zero. Truncating at
every step is truncating once, after a division by the product of all divisors, however large that
is. One quotient does not fit 64 bits, that of `-2 ^ 63` by `-1`; it wraps to `-2 ^ 63`. The
leftmost argument at fault is reported, be it a divisor that is zero or something that is no
number. -/

namespace Lisp.Primitive

/-! ## One divisor after the other -/

theorem tdiv_tdiv (a b c : Int) : (a.tdiv b).tdiv c = a.tdiv (b * c) := by
  -- signs go to the front of both sides, which leaves a law of natural numbers
  obtain ⟨x, rfl | rfl⟩ := a.eq_nat_or_neg <;> obtain ⟨y, rfl | rfl⟩ := b.eq_nat_or_neg <;>
    obtain ⟨z, rfl | rfl⟩ := c.eq_nat_or_neg <;>
    simp only [Int.neg_tdiv, Int.tdiv_neg, Int.neg_mul, Int.mul_neg, Int.neg_neg,
      ← Int.natCast_mul, ← Int.ofNat_tdiv, Nat.div_div_eq_div_mul]

/-- One step of a division: truncated toward zero, except that `-2 ^ 63` by `-1` stays `-2 ^ 63`. -/
def divideStep (z d : Int) : Int :=
  if z = -2 ^ 63 ∧ d = -1 then -2 ^ 63 else z.tdiv d

/-- Some step of dividing `z` by `ds` in turn divides `-2 ^ 63` by `-1`. -/
def Overflows (z : Int) (ds : List Int) : Prop :=
  ∃ before after, ds = before ++ -1 :: after ∧ before.foldl divideStep z = -2 ^ 63

theorem toInt_div (n d : Int64) : (n / d).toInt = divideStep n.toInt d.toInt := by
  rw [divideStep]
  by_cases hn : n = Int64.minValue
  · by_cases hd : d = -1
    · rw [hn, hd, Int64.minValue_div_neg_one]
      rfl
    · have hne : d.toInt ≠ -1 := fun h => hd (Int64.toInt_inj.mp h)
      rw [if_neg fun h => hne h.2, Int64.toInt_div_of_ne_right n d hd]
  · have hne : n.toInt ≠ -2 ^ 63 := fun h => hn (Int64.toInt_inj.mp h)
    rw [if_neg fun h => hne h.1, Int64.toInt_div_of_ne_left n d hn]

theorem toInt_foldl_div (n : Int64) (ds : List Int64) :
    (ds.foldl (· / ·) n).toInt = (ds.map Int64.toInt).foldl divideStep n.toInt := by
  rw [List.foldl_map]
  exact (List.foldl_hom Int64.toInt fun m d => (toInt_div m d).symm).symm

theorem Overflows.cons {z d : Int} {ds : List Int} (h : Overflows (divideStep z d) ds) :
    Overflows z (d :: ds) := by
  obtain ⟨before, after, rfl, hz⟩ := h
  exact ⟨d :: before, after, rfl, hz⟩

theorem foldl_divideStep {z : Int} {ds : List Int} (h : ¬Overflows z ds) :
    ds.foldl divideStep z = z.tdiv ds.prod := by
  induction ds generalizing z with
  | nil => simp
  | cons d ds ih =>
      have hstep : divideStep z d = z.tdiv d := by
        rw [divideStep, if_neg]
        rintro ⟨rfl, rfl⟩
        exact h ⟨[], ds, rfl, rfl⟩
      rw [List.foldl_cons, ih fun hover => h hover.cons, hstep, tdiv_tdiv, List.prod_cons]

/-- A division takes no number away from zero, and only `-2 ^ 63` is as far as that. -/
theorem natAbs_foldl_divideStep_lt {z : Int} (hz : z.natAbs < 2 ^ 63) (ds : List Int) :
    (ds.foldl divideStep z).natAbs < 2 ^ 63 := by
  induction ds generalizing z with
  | nil => exact hz
  | cons d ds ih =>
      refine ih ?_
      rw [divideStep, if_neg (by omega)]
      exact Nat.lt_of_le_of_lt (Int.natAbs_tdiv_le_natAbs z d) hz

theorem not_overflows {n : Int64} (hn : n.toInt ≠ -2 ^ 63) (ds : List Int) :
    ¬Overflows n.toInt ds := by
  rintro ⟨before, after, -, hmin⟩
  have hlower := n.le_toInt
  have hupper := n.toInt_lt
  have hlt := natAbs_foldl_divideStep_lt (z := n.toInt) (by omega) before
  rw [hmin] at hlt
  exact absurd hlt (by decide)

/-! ## Arguments at fault -/

/-- What is wrong with an argument of a division: it is not a number, or it divides and is zero. -/
def divisionFault? (divides : Bool) : Value → Option Error
  | .number n => if divides && n == 0 then some .divisionByZero else none
  | v => some (.type (.numeric div v) none)

theorem divideBy_of_fault {v : Value} {e : Error} (h : divisionFault? true v = some e) (n : Int64) :
    divideBy n v = .error e := by
  cases v with
  | number d =>
      have hd : d = 0 ∧ .divisionByZero = e := by simpa [divisionFault?] using h
      obtain ⟨rfl, rfl⟩ := hd
      rfl
  | _ =>
      cases h
      rfl

theorem divideBy_number (n : Int64) {d : Int64} (hd : d ≠ 0) :
    divideBy n (.number d) = .ok (n / d) :=
  if_neg hd

theorem exists_divisor {v : Value} (h : divisionFault? true v = none) :
    ∃ d : Int64, v = .number d ∧ d ≠ 0 := by
  cases v with
  | number d => exact ⟨d, rfl, by simpa [divisionFault?] using h⟩
  | _ => cases h

theorem exists_divisors {ds : List Value} (h : ds.findSome? (divisionFault? true) = none) :
    ∃ ns : List Int64, ds = ns.map .number ∧ 0 ∉ ns := by
  rw [List.findSome?_eq_none_iff] at h
  induction ds with
  | nil => exact ⟨[], rfl, List.not_mem_nil⟩
  | cons v vs ih =>
      obtain ⟨d, rfl, hd⟩ := exists_divisor (h v List.mem_cons_self)
      obtain ⟨ns, rfl, hns⟩ := ih fun w hw => h w (List.mem_cons_of_mem _ hw)
      exact ⟨d :: ns, rfl, by simp [hns, hd.symm]⟩

theorem foldlM_divideBy_of_fault {ds : List Value} {e : Error}
    (h : ds.findSome? (divisionFault? true) = some e) (n : Int64) :
    ds.foldlM divideBy n = .error e := by
  induction ds generalizing n with
  | nil => cases h
  | cons v vs ih =>
      rw [List.foldlM_cons]
      cases hv : divisionFault? true v with
      | some e' =>
          have he : e' = e := by simpa [hv] using h
          rw [divideBy_of_fault hv, he]
          rfl
      | none =>
          have htail : vs.findSome? (divisionFault? true) = some e := by simpa [hv] using h
          obtain ⟨d, rfl, hd⟩ := exists_divisor hv
          rw [divideBy_number n hd]
          exact ih htail (n / d)

theorem foldlM_divideBy_numbers {ns : List Int64} (h : 0 ∉ ns) (n : Int64) :
    (ns.map Value.number).foldlM divideBy n = .ok (ns.foldl (· / ·) n) := by
  induction ns generalizing n with
  | nil => rfl
  | cons d ns ih =>
      rw [List.mem_cons, not_or] at h
      rw [List.map_cons, List.foldlM_cons, divideBy_number n (Ne.symm h.1)]
      exact ih h.2 (n / d)

/-! ## The answer of a division -/

theorem apply_div {v : Value} {ds : List Value} (hds : ds ≠ []) :
    div.apply (v :: ds) =
      (do ds.foldlM divideBy (← div.number v)).map fun n => pure (.number n) := by
  cases ds with
  | nil => exact absurd rfl hds
  | cons d ds => rfl

theorem apply_div_of_fault {v : Value} {ds : List Value} {e : Error} (hds : ds ≠ [])
    (h : (divisionFault? false v).or (ds.findSome? (divisionFault? true)) = some e) :
    div.apply (v :: ds) = .error e := by
  rw [apply_div hds]
  cases v with
  | number n =>
      have hfold := foldlM_divideBy_of_fault h n
      exact congrArg (Except.map _) hfold
  | _ =>
      cases h
      rfl

theorem apply_div_numbers {ns : List Int64} (hns : ns ≠ []) (hzero : 0 ∉ ns) (n : Int64) :
    div.apply (.number n :: ns.map .number) = .ok (pure (.number (ns.foldl (· / ·) n))) := by
  rw [apply_div (by simpa using hns)]
  exact congrArg (Except.map _) (foldlM_divideBy_numbers hzero n)

theorem apply_div_error_iff {v : Value} {ds : List Value} (hds : ds ≠ []) (e : Error) :
    div.apply (v :: ds) = .error e ↔
      (divisionFault? false v).or (ds.findSome? (divisionFault? true)) = some e := by
  refine ⟨fun h => ?_, apply_div_of_fault hds⟩
  cases hfault : (divisionFault? false v).or (ds.findSome? (divisionFault? true)) with
  | some e' =>
      rw [apply_div_of_fault hds hfault] at h
      cases h
      rfl
  | none =>
      rw [Option.or_eq_none_iff] at hfault
      obtain ⟨ns, rfl, hzero⟩ := exists_divisors hfault.2
      cases v with
      | number n =>
          rw [apply_div_numbers (by simpa using hds) hzero n] at h
          cases h
      | _ => cases hfault.1

theorem apply_div_fails_iff {v : Value} {ds : List Value} (hds : ds ≠ []) :
    (∃ e, div.apply (v :: ds) = .error e) ↔
      v.number? = none ∨ ∃ d ∈ ds, d.number? = none ∨ d = .number 0 := by
  have hfirst : ∀ v, (divisionFault? false v).isSome ↔ v.number? = none := by
    intro v
    cases v <;> simp [divisionFault?, Value.number?]
  have hdivisor : ∀ d, (divisionFault? true d).isSome ↔ d.number? = none ∨ d = .number 0 := by
    intro d
    cases d <;> simp [divisionFault?, Value.number?]
  simp only [apply_div_error_iff hds, ← Option.isSome_iff_exists, Option.isSome_or,
    Bool.or_eq_true, List.findSome?_isSome_iff, hfirst, hdivisor]

theorem apply_div_single (n : Int64) :
    div.apply [.number n] = if n = 0 then .error .divisionByZero
      else .ok (pure (.number (1 / n))) := by
  show (divideBy 1 (.number n)).map _ = _
  split
  · rename_i hn
    rw [hn]
    rfl
  · rename_i hn
    rw [divideBy_number 1 hn]
    rfl

/-- A division of several arguments fails exactly if the first is not a number or one of the others
is not a number or zero, with the error of the leftmost such argument. Otherwise it gives the
quotient by the product of the divisors, truncated once, unless it comes to divide `-2 ^ 63` by
`-1`, and then it goes on from `-2 ^ 63`; only a first argument of `-2 ^ 63` can lead there. A
single argument divides one. -/
theorem division_truncates_by_product (a : Value) (ds : List Value) :
    (ds ≠ [] →
      ((∃ e, div.apply (a :: ds) = .error e) ↔
        a.number? = none ∨ ∃ d ∈ ds, d.number? = none ∨ d = .number 0) ∧
      (∀ e, div.apply (a :: ds) = .error e ↔
        (divisionFault? false a).or (ds.findSome? (divisionFault? true)) = some e) ∧
      ∀ (n : Int64) (ns : List Int64), a = .number n → ds = ns.map .number → 0 ∉ ns →
        ∃ q : Int64, div.apply (a :: ds) = .ok (pure (.number q)) ∧
          q.toInt = (ns.map Int64.toInt).foldl divideStep n.toInt ∧
          (¬Overflows n.toInt (ns.map Int64.toInt) →
            q.toInt = n.toInt.tdiv (ns.map Int64.toInt).prod) ∧
          (n.toInt ≠ -2 ^ 63 → ¬Overflows n.toInt (ns.map Int64.toInt))) ∧
    (∀ n : Int64, a = .number n →
      (div.apply [a] = .error .divisionByZero ↔ n = 0) ∧
      (n ≠ 0 → ∃ q : Int64, div.apply [a] = .ok (pure (.number q)) ∧
        q.toInt = Int.tdiv 1 n.toInt)) ∧
    (a.number? = none → div.apply [a] = .error (.type (.numeric div a) none)) := by
  refine ⟨fun hds => ⟨apply_div_fails_iff hds, apply_div_error_iff hds, ?_⟩, ?_, ?_⟩
  · rintro n ns rfl rfl hzero
    have hquotient := toInt_foldl_div n ns
    refine ⟨_, apply_div_numbers (by simpa using hds) hzero n, hquotient, fun hover => ?_,
      fun hn => not_overflows hn _⟩
    rw [hquotient, foldl_divideStep hover]
  · rintro n rfl
    rw [apply_div_single]
    refine ⟨by simp, fun hn => ⟨1 / n, if_neg hn, ?_⟩⟩
    exact Int64.toInt_div_of_ne_left 1 n (by decide)
  · intro ha
    cases a with
    | number n => cases ha
    | _ => rfl

/-- Dividing `-2 ^ 63` by `1`, `-1` and `2`: the second step wraps and the third halves what it is
given. From one more the three steps are a single division. A symbol behind a zero divisor is not
reported, and one in front of it is. -/
theorem division_truncates_by_product_wraps :
    let least : Value := .number Int64.minValue
    let next : Value := .number (Int64.minValue + 1)
    let divisors : List Value := [.number 1, .number (-1), .number 2]
    (∃ q : Int64, div.apply (least :: divisors) = .ok (pure (.number q)) ∧ q.toInt = -2 ^ 62) ∧
    (∃ q : Int64, div.apply (next :: divisors) = .ok (pure (.number q)) ∧
      q.toInt = (-2 ^ 63 + 1 : Int).tdiv (-2)) ∧
    div.apply [.number 0, .number 7, .number 0, .truth] = .error .divisionByZero ∧
    div.apply [.number 0, .truth, .number 0] = .error (.type (.numeric div .truth) none) := by
  intro least next divisors
  have hzero : (0 : Int64) ∉ [1, -1, 2] := by decide
  refine ⟨?_, ?_, ?_, ?_⟩
  · obtain ⟨-, -, hvalue⟩ := (division_truncates_by_product least divisors).1 (by simp [divisors])
    obtain ⟨q, hq, hsteps, -, -⟩ := hvalue Int64.minValue [1, -1, 2] rfl rfl hzero
    exact ⟨q, hq, hsteps.trans (by decide)⟩
  · obtain ⟨-, -, hvalue⟩ := (division_truncates_by_product next divisors).1 (by simp [divisors])
    obtain ⟨q, hq, -, hproduct, hsafe⟩ := hvalue (Int64.minValue + 1) [1, -1, 2] rfl rfl hzero
    exact ⟨q, hq, (hproduct (hsafe (by decide))).trans (by decide)⟩
  · exact (((division_truncates_by_product _ _).1 (by simp)).2.1 _).mpr rfl
  · exact (((division_truncates_by_product _ _).1 (by simp)).2.1 _).mpr rfl

end Lisp.Primitive
