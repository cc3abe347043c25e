import Lisp.Operator.Apply
import Mathlib.Algebra.BigOperators.Group.List.Basic
import Mathlib.Data.Int.ModEq

/-! # Sums, products and differences

Numbers wrap at every step of a fold over the arguments. Wrapping is reduction modulo `2 ^ 64`, which
commutes with the three operations, so the answer is the exact result reduced once; it depends
neither on the order nor on the grouping of what is added or multiplied. If an argument is not a
number, the leftmost such argument is reported. -/

namespace Lisp.Primitive

/-! ## Arguments that are numbers -/

section Numbers

variable (op : Primitive)

theorem number_of_ne_number {v : Value} (hv : v.number? = none) :
    op.number v = .error (.type (.numeric op v) none) := by
  cases v with
  | number n => cases hv
  | _ => rfl

theorem numbers_cons (v : Value) (vs : List Value) :
    op.numbers (v :: vs) = do return (← op.number v) :: (← op.numbers vs) :=
  List.mapM_cons

theorem numbers_append (vs ws : List Value) :
    op.numbers (vs ++ ws) = do return (← op.numbers vs) ++ (← op.numbers ws) :=
  List.mapM_append

@[simp] theorem numbers_map_number (ns : List Int64) : op.numbers (ns.map .number) = .ok ns := by
  induction ns with
  | nil => rfl
  | cons n ns ih =>
      rw [List.map_cons, numbers_cons, ih]
      rfl

/-- What stands behind the leftmost argument that is not a number does not matter. -/
theorem numbers_of_find? {args : List Value} {v : Value}
    (h : args.find? (fun v => v.number?.isNone) = some v) :
    op.numbers args = .error (.type (.numeric op v) none) := by
  induction args with
  | nil => cases h
  | cons w ws ih =>
      rw [numbers_cons]
      cases hw : w.number? with
      | none =>
          have hwv : w = v := by simpa [hw] using h
          rw [op.number_of_ne_number hw, hwv]
          rfl
      | some n =>
          have htail : ws.find? (fun v => v.number?.isNone) = some v := by simpa [hw] using h
          rw [ih htail]
          cases w with
          | number n => rfl
          | _ => cases hw

end Numbers

/-! ## Sums and products as folds -/

section Folds

variable {op : Primitive} {f : Int64 → Int64 → Int64} {e : Int64}

/-- The fold over the numbers that the arguments are. -/
def total (op : Primitive) (f : Int64 → Int64 → Int64) (e : Int64) (args : List Value) :
    Except Error Int64 :=
  (op.numbers args).map (List.foldl f e)

/-- A call answers by a fold over its arguments. -/
def Folds (op : Primitive) (f : Int64 → Int64 → Int64) (e : Int64) : Prop :=
  ∀ args, op.apply args = (op.total f e args).map fun n => pure (.number n)

theorem folds_add : add.Folds (· + ·) 0 := by
  intro args
  show (add.numbers args).map _ = _
  rw [total]
  cases add.numbers args <;> rfl

theorem folds_mul : mul.Folds (· * ·) 1 := by
  intro args
  show (mul.numbers args).map _ = _
  rw [total]
  cases mul.numbers args <;> rfl

theorem Folds.apply_numbers (hop : op.Folds f e) (ns : List Int64) :
    op.apply (ns.map .number) = .ok (pure (.number (ns.foldl f e))) := by
  rw [hop, total, numbers_map_number]
  rfl

theorem Folds.total_of_apply (hop : op.Folds f e) {args : List Value} {v : Value}
    (h : op.apply args = .ok (pure v)) : ∃ n, v = .number n ∧ op.total f e args = .ok n := by
  rw [hop] at h
  cases htotal : op.total f e args with
  | error err =>
      rw [htotal] at h
      cases h
  | ok n =>
      rw [htotal] at h
      have hpure : (pure (.number n) : Fresh Value) = pure v := Except.ok.inj h
      exact ⟨n, (congrArg (fun make => (make.run 0).1) hpure).symm, rfl⟩

theorem total_append [Std.Associative f] [Std.LawfulIdentity f e] (vs ws : List Value) :
    op.total f e (vs ++ ws) = do return f (← op.total f e vs) (← op.total f e ws) := by
  rw [total, total, total, numbers_append]
  cases op.numbers vs with
  | error err => rfl
  | ok ms =>
      cases op.numbers ws with
      | error err => rfl
      | ok ns =>
          have hfold : (ms ++ ns).foldl f e = f (ms.foldl f e) (ns.foldl f e) := calc
            (ms ++ ns).foldl f e = ns.foldl f (ms.foldl f e) := List.foldl_append
            _ = ns.foldl f (f (ms.foldl f e) e) :=
              congrArg (ns.foldl f) (Std.LawfulRightIdentity.right_id _).symm
            _ = f (ms.foldl f e) (ns.foldl f e) := List.foldl_assoc
          exact congrArg Except.ok hfold

theorem total_singleton [Std.LawfulIdentity f e] (n : Int64) :
    op.total f e [.number n] = .ok n :=
  congrArg Except.ok (Std.LawfulLeftIdentity.left_id n)

end Folds

/-! ## One reduction -/

/-- The call gives the number that is congruent to `z` modulo `2 ^ 64`. -/
def GivesReduced (result : Except Error (Fresh Value)) (z : Int) : Prop :=
  ∃ n : Int64, result = .ok (pure (.number n)) ∧
    n.toInt ≡ z [ZMOD 2 ^ 64] ∧ -2 ^ 63 ≤ n.toInt ∧ n.toInt < 2 ^ 63

theorem givesReduced_ofInt {result : Except Error (Fresh Value)} {z : Int}
    (h : result = .ok (pure (.number (Int64.ofInt z)))) : GivesReduced result z := by
  refine ⟨Int64.ofInt z, h, ?_, Int64.le_toInt _, Int64.toInt_lt _⟩
  rw [Int64.toInt_ofInt]
  exact Int.bmod_emod

/-- Wrapping at every step of a fold is reducing the exact result. -/
theorem foldl_ofInt {f : Int64 → Int64 → Int64} {g : Int → Int → Int}
    (hfg : ∀ a b, Int64.ofInt (g a b) = f (Int64.ofInt a) (Int64.ofInt b)) (ns : List Int64)
    (a : Int) : ns.foldl f (Int64.ofInt a) = Int64.ofInt ((ns.map Int64.toInt).foldl g a) := by
  rw [List.foldl_map]
  refine List.foldl_hom Int64.ofInt fun b n => ?_
  rw [hfg, Int64.ofInt_toInt]

theorem add_givesReduced (ns : List Int64) :
    GivesReduced (add.apply (ns.map .number)) (ns.map Int64.toInt).sum := by
  apply givesReduced_ofInt
  rw [folds_add.apply_numbers, List.sum_eq_foldl, ← foldl_ofInt Int64.ofInt_add]
  rfl

theorem mul_givesReduced (ns : List Int64) :
    GivesReduced (mul.apply (ns.map .number)) (ns.map Int64.toInt).prod := by
  apply givesReduced_ofInt
  rw [folds_mul.apply_numbers, List.prod_eq_foldl, ← foldl_ofInt Int64.ofInt_mul]
  rfl

theorem apply_sub (v : Value) (vs : List Value) :
    sub.apply (v :: vs) =
      (sub.numbers (v :: vs)).map fun ns => pure (.number (difference ns)) := rfl

theorem apply_sub_numbers (n : Int64) (ns : List Int64) :
    sub.apply (.number n :: ns.map .number) = .ok (pure (.number (difference (n :: ns)))) := by
  rw [apply_sub, ← List.map_cons, numbers_map_number]
  rfl

theorem negate_givesReduced (n : Int64) : GivesReduced (sub.apply [.number n]) (-n.toInt) := by
  apply givesReduced_ofInt
  rw [Int64.ofInt_neg, Int64.ofInt_toInt]
  exact apply_sub_numbers n []

theorem foldl_sub (a : Int) (zs : List Int) : zs.foldl (· - ·) a = a - zs.sum := by
  induction zs generalizing a with
  | nil => simp
  | cons z zs ih =>
      rw [List.foldl_cons, ih, List.sum_cons]
      omega

theorem sub_givesReduced (n : Int64) {ns : List Int64} (hns : ns ≠ []) :
    GivesReduced (sub.apply (.number n :: ns.map .number))
      (n.toInt - (ns.map Int64.toInt).sum) := by
  apply givesReduced_ofInt
  rw [apply_sub_numbers, ← foldl_sub, ← foldl_ofInt Int64.ofInt_sub, Int64.ofInt_toInt]
  cases ns with
  | nil => exact absurd rfl hns
  | cons k ks => rfl

/-! ## Order and grouping -/

/-- Arguments gathered, in their order, into others: each part is one of them, or the value of a
call on a group of them, which may have been gathered in the same way. -/
inductive Grouped (op : Primitive) : (args parts : List Value) → Prop
  | nil : Grouped op [] []
  | keep {args parts : List Value} (v : Value) : Grouped op args parts →
      Grouped op (v :: args) (v :: parts)
  | call {group inner args parts : List Value} {v : Value} : Grouped op group inner →
      op.apply inner = .ok (pure v) → Grouped op args parts →
      Grouped op (group ++ args) (v :: parts)

section Order

variable {op : Primitive} {f : Int64 → Int64 → Int64} {e : Int64} [Std.Associative f]

theorem Folds.apply_perm [Std.Commutative f] (hop : op.Folds f e) {ns ns' : List Int64}
    (h : ns.Perm ns') : op.apply (ns.map .number) = op.apply (ns'.map .number) := by
  rw [hop.apply_numbers, hop.apply_numbers, h.foldl_eq e]

theorem Grouped.total_eq [Std.LawfulIdentity f e] (hop : op.Folds f e) {args parts : List Value}
    (h : Grouped op args parts) : op.total f e args = op.total f e parts := by
  induction h with
  | nil => rfl
  | keep v _ ih =>
      rw [← List.singleton_append, total_append, ih, ← total_append, List.singleton_append]
  | @call group inner args parts v _ hv _ ihgroup ih =>
      -- the group and its value have the same total, that of the value being the number it is
      obtain ⟨n, rfl, hn⟩ := hop.total_of_apply hv
      rw [total_append, ihgroup, hn, ih, ← List.singleton_append, total_append, total_singleton]

theorem Folds.apply_grouped [Std.LawfulIdentity f e] (hop : op.Folds f e)
    {args parts : List Value} (h : Grouped op args parts) : op.apply args = op.apply parts := by
  rw [hop, hop, h.total_eq hop]

end Order

theorem difference_perm (n : Int64) {ns ns' : List Int64} (h : ns.Perm ns') :
    difference (n :: ns) = difference (n :: ns') := by
  have hcomm : RightCommutative (fun a b : Int64 => a - b) := ⟨fun a b c => by grind⟩
  cases ns with
  | nil => rw [h.nil_eq]
  | cons k ks =>
      cases ns' with
      | nil => cases h.eq_nil
      | cons k' ks' => exact h.foldl_eq n

/-! ## Arguments that are not numbers -/

theorem apply_of_find? {op : Primitive} (hop : op = add ∨ op = sub ∨ op = mul) {args : List Value}
    {v : Value} (h : args.find? (fun v => v.number?.isNone) = some v) :
    op.apply args = .error (.type (.numeric op v) none) := by
  have happly : ∃ k, op.apply args = (op.numbers args).map k := by
    rcases hop with rfl | rfl | rfl
    · exact ⟨_, rfl⟩
    · cases args with
      | nil => cases h
      | cons w ws => exact ⟨_, apply_sub w ws⟩
    · exact ⟨_, rfl⟩
  obtain ⟨k, hk⟩ := happly
  rw [hk, op.numbers_of_find? h]
  rfl

/-- On numbers the answers are the exact sum, product and difference, reduced once. So a sum or a
product is the same in every order and every grouping, and a difference in every order of what is
subtracted. Any other argument is an error, and the leftmost one is named. -/
theorem arithmetic_reduces_exact_result :
    (∀ ns : List Int64,
      GivesReduced (add.apply (ns.map .number)) (ns.map Int64.toInt).sum ∧
      GivesReduced (mul.apply (ns.map .number)) (ns.map Int64.toInt).prod) ∧
    (∀ n : Int64, GivesReduced (sub.apply [.number n]) (-n.toInt)) ∧
    (∀ (n : Int64) (ns : List Int64), ns ≠ [] →
      GivesReduced (sub.apply (.number n :: ns.map .number))
        (n.toInt - (ns.map Int64.toInt).sum)) ∧
    (∀ op, op = add ∨ op = mul →
      (∀ ns ns' : List Int64, ns.Perm ns' →
        op.apply (ns.map .number) = op.apply (ns'.map .number)) ∧
      ∀ args parts, Grouped op args parts → op.apply args = op.apply parts) ∧
    (∀ (n : Int64) (ns ns' : List Int64), ns.Perm ns' →
      sub.apply (.number n :: ns.map .number) = sub.apply (.number n :: ns'.map .number)) ∧
    (∀ op, op = add ∨ op = sub ∨ op = mul → ∀ args v,
      args.find? (fun v => v.number?.isNone) = some v →
      op.apply args = .error (.type (.numeric op v) none)) := by
  refine ⟨fun ns => ⟨add_givesReduced ns, mul_givesReduced ns⟩, negate_givesReduced,
    fun n ns hns => sub_givesReduced n hns, ?_, ?_, fun op hop args v => apply_of_find? hop⟩
  · rintro op (rfl | rfl)
    · exact ⟨fun ns ns' => folds_add.apply_perm, fun args parts => folds_add.apply_grouped⟩
    · exact ⟨fun ns ns' => folds_mul.apply_perm, fun args parts => folds_mul.apply_grouped⟩
  · intro n ns ns' hperm
    rw [apply_sub_numbers, apply_sub_numbers, difference_perm n hperm]

/-- The greatest number and two more that take the sum over the edge, in another order and with the
last two grouped. With a symbol and a function among the arguments, the symbol is named. -/
theorem arithmetic_reduces_exact_result_wraps :
    let big : Int64 := Int64.maxValue
    let function : Value := .closure 0 .nil .nil 0
    GivesReduced (add.apply [.number big, .number 5, .number (-3)]) (2 ^ 63 + 1) ∧
    add.apply [.number (-3), .number big, .number 5] =
      add.apply [.number big, .number 5, .number (-3)] ∧
    add.apply [.number big, .number 5, .number (-3)] =
      add.apply [.number big, .number 2] ∧
    GivesReduced (sub.apply [.number (-3), .number big]) (-3 - (2 ^ 63 - 1)) ∧
    mul.apply [.number 0, .truth, function] = .error (.type (.numeric mul .truth) none) := by
  intro big function
  obtain ⟨hexact, -, hsub, horder, -, herror⟩ := arithmetic_reduces_exact_result
  obtain ⟨hperm, hgroup⟩ := horder add (.inl rfl)
  have hsum : ([big, 5, -3].map Int64.toInt).sum = 2 ^ 63 + 1 := by decide
  have hinner : add.apply ([5, -3].map .number) = .ok (pure (.number 2)) := by
    have hfold : [5, -3].foldl (· + ·) (0 : Int64) = 2 := by decide
    rw [folds_add.apply_numbers, hfold]
  refine ⟨hsum ▸ (hexact [big, 5, -3]).1, hperm [-3, big, 5] [big, 5, -3] (by decide), ?_,
    hsub (-3) [big] (by decide), ?_⟩
  · refine hgroup _ _ (.keep (.number big) ?_)
    exact .call (.keep (.number 5) (.keep (.number (-3)) .nil)) hinner .nil
  · exact herror mul (.inr (.inr rfl)) _ .truth rfl

end Lisp.Primitive
