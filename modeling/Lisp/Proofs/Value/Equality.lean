import Lisp.Proofs.Moment

/-! # Equality without the shortcut

Equality takes two pairs that are one object as equal without a look inside. In every run that
changes no answer, since a serial number is given to one object only: equality is the comparison
part by part, an equivalence that new pairs and printing respect. -/

namespace Lisp

namespace Value

/-- Equality part by part, pairs that are one object included. -/
def equalByParts : Value → Value → Bool
  | number m, number n => m == n
  | symbol s, symbol t => s.name == t.name
  | pair _ a d, pair _ b e => equalByParts a b && equalByParts d e
  | closure i _ _ _, closure j _ _ _ => i == j
  | _, _ => false

/-- What a comparison part by part sees of a value: of a pair its parts, of a function which one it
is. -/
def bare : Value → Value
  | number n => number n
  | symbol s => symbol s
  | pair _ a d => pair 0 a.bare d.bare
  | closure i _ _ _ => closure i nil nil 0

variable {v w u : Value}

theorem equalByParts_iff : v.equalByParts w = true ↔ v.bare = w.bare := by
  induction v generalizing w with
  | number m => cases w <;> simp [equalByParts, bare]
  | symbol s => cases w <;> simp [equalByParts, bare, Symbol.name_inj]
  | pair i a d iha ihd => cases w <;> simp [equalByParts, bare, iha, ihd]
  | closure i params body f => cases w <;> simp [equalByParts, bare]

theorem equalByParts_refl (v : Value) : v.equalByParts v = true :=
  equalByParts_iff.mpr rfl

theorem equalByParts_symm (h : v.equalByParts w = true) : w.equalByParts v = true :=
  equalByParts_iff.mpr (equalByParts_iff.mp h).symm

theorem equalByParts_trans (hvw : v.equalByParts w = true) (hwu : w.equalByParts u = true) :
    v.equalByParts u = true :=
  equalByParts_iff.mpr ((equalByParts_iff.mp hvw).trans (equalByParts_iff.mp hwu))

/-- Printing sees no more of a value than the comparison does. -/
theorem write_bare (v : Value) (inTail : Bool) (after : List Char) :
    v.bare.write inTail after = v.write inTail after := by
  induction v generalizing inTail after with
  | number n => rfl
  | symbol s => rfl
  | pair i a d iha ihd => rw [bare, write, write, ihd, iha]
  | closure => cases inTail <;> rfl

theorem print_eq_of_equalByParts (h : v.equalByParts w = true) : v.print = w.print := by
  rw [print, print, ← write_bare v, ← write_bare w, equalByParts_iff.mp h]

/-- The shortcut changes no answer where a serial number is one pair. -/
theorem equal_eq_equalByParts (h : v.Coherent w) : v.equal w = v.equalByParts w := by
  induction v generalizing w with
  | number m => cases w <;> rfl
  | symbol s =>
      cases w with
      | symbol t =>
          rw [Bool.eq_iff_iff]
          simp [equal, identical, equalByParts, Symbol.name_inj]
      | _ => rfl
  | closure => cases w <;> rfl
  | pair i a d iha ihd =>
      cases w with
      | pair j b e =>
          rw [equal, equalByParts, ← iha h.first, ← ihd h.rest]
          by_cases hij : i = j
          · -- one object, so the parts are the same as well
            subst hij
            obtain ⟨rfl, rfl⟩ := h i a d b e (.self _) (.self _)
            simp [iha h.first, ihd h.rest, equalByParts_refl]
          · simp [hij]
      | _ => rfl

theorem equal_of_identical (h : v.identical w = true) : v.equal w = true := by
  cases v with
  | pair i a d =>
      cases w with
      | pair j b e =>
          rw [equal, show (i == j) = true from h]
          rfl
      | _ => cases h
  | _ => simpa [equal] using h

/-- New pairs of equal parts are equal, whatever their serial numbers. -/
theorem equal_cons {v' w' : Value} (hv : v.equal v' = true) (hw : w.equal w' = true)
    (n n' : Serial) : ((cons v w).run n).1.equal ((cons v' w').run n').1 = true := by
  have hmade : ((cons v w).run n).1.equal ((cons v' w').run n').1 =
      (n == n' || (v.equal v' && w.equal w')) := rfl
  rw [hmade, hv, hw, Bool.and_self, Bool.or_true]

end Value

/-! ## Values that are sound together -/

variable {p : Pairing}

/-- Two that are the same object are the same in all their parts. -/
theorem Value.Corresponds.eq_of_identical {a b : Value} (ha : Corresponds p a a)
    (hb : Corresponds p b b) (h : a.identical b = true) : a = b := by
  cases ha with
  | number m =>
      cases hb with
      | number n => simpa [identical] using h
      | _ => cases h
  | symbol s =>
      cases hb with
      | symbol t => simpa [identical] using h
      | _ => cases h
  | pair ho _ _ =>
      cases hb with
      | pair ho' _ _ => exact (p.object_left ho ho' (by simpa [identical, serial?] using h)).1
      | _ => cases h
  | closure ho _ _ _ =>
      cases hb with
      | closure ho' _ _ _ => exact (p.object_left ho ho' (by simpa [identical, serial?] using h)).1
      | _ => cases h

theorem Value.Corresponds.coherent {v w : Value} (hv : Corresponds p v v)
    (hw : Corresponds p w w) : v.Coherent w := by
  intro i a d b e ha hb
  have hsame := (hv.of_contains ha).eq_of_identical (hw.of_contains hb) (by simp [identical])
  simpa using hsame

/-- What the two kinds of equality come to among values. -/
structure Value.Equalities (vs : List Value) : Prop where
  /-- What is one object is the same in all its parts, wherever it stands. -/
  one_object : ∀ v ∈ vs, ∀ w ∈ vs, ∀ a b, v.Contains a → w.Contains b →
    a.identical b = true → a = b
  equal_eq : ∀ v ∈ vs, ∀ w ∈ vs, v.equal w = v.equalByParts w ∧
    Primitive.equal.apply [v, w] = .ok (pure (.ofBool (v.equalByParts w)))
  of_identical : ∀ v ∈ vs, ∀ w ∈ vs, v.identical w = true → v.equal w = true
  refl : ∀ v ∈ vs, v.equal v = true
  symm : ∀ v ∈ vs, ∀ w ∈ vs, v.equal w = true → w.equal v = true
  trans : ∀ v ∈ vs, ∀ w ∈ vs, ∀ u ∈ vs, v.equal w = true → w.equal u = true → v.equal u = true
  cons : ∀ v ∈ vs, ∀ v' ∈ vs, ∀ w ∈ vs, ∀ w' ∈ vs, v.equal v' = true → w.equal w' = true →
    ∀ n n', ((Value.cons v w).run n).1.equal ((Value.cons v' w').run n').1 = true
  print_eq : ∀ v ∈ vs, ∀ w ∈ vs, v.equal w = true → v.print = w.print

/-- Values that correspond to themselves under one pairing can be compared part by part. -/
theorem Value.Equalities.of_corresponds {vs : List Value}
    (h : ∀ v ∈ vs, Corresponds p v v) : Equalities vs := by
  have hequal : ∀ v ∈ vs, ∀ w ∈ vs, v.equal w = v.equalByParts w := fun v hv w hw =>
    equal_eq_equalByParts ((h v hv).coherent (h w hw))
  refine ⟨?_, ?_, fun v _ w _ => equal_of_identical, ?_, ?_, ?_, ?_, ?_⟩
  · intro v hv w hw a b ha hb
    exact ((h v hv).of_contains ha).eq_of_identical ((h w hw).of_contains hb)
  · intro v hv w hw
    refine ⟨hequal v hv w hw, ?_⟩
    rw [← hequal v hv w hw]
    rfl
  · intro v hv
    rw [hequal v hv v hv]
    exact equalByParts_refl v
  · intro v hv w hw
    rw [hequal v hv w hw, hequal w hw v hv]
    exact equalByParts_symm
  · intro v hv w hw u hu
    rw [hequal v hv w hw, hequal w hw u hu, hequal v hv u hu]
    exact equalByParts_trans
  · intro v _ v' _ w _ w' _
    exact equal_cons
  · intro v hv w hw
    rw [hequal v hv w hw]
    exact print_eq_of_equalByParts

/-- At every moment of every run equality with its shortcut is the comparison part by part, and
keeps the laws that this has. -/
theorem moment_equalities {m : Machine} {held : List Value} (h : Moment m held) :
    Value.Equalities held := by
  obtain ⟨p, hm⟩ := h.sound
  exact .of_corresponds hm.value

/-- One pair of a function and a number is made twice. The two are different objects that share
the function, and are equal. -/
theorem moment_equalities_shared :
    let name (s : String) : Datum := .symbol (.ofName s)
    let list (ds : List Datum) : Datum := .ofList ds .nil
    let definition : Datum := list [name "DEFUN", name "F", list [name "X"], name "X"]
    let call : Datum := list [name "CONS", name "F", .number 1]
    let m₁ := (do let _ ← Run.push .global; return Value.nil : Run Value).after (.blank none)
    let m₂ := (Run.fresh (Value.ofDatum definition)).after m₁
    let m₃ := (evaluate .bounded 0 ((Value.ofDatum definition).run m₁.serial).1 0).after m₂
    let m₄ := (Run.fresh (Value.ofDatum call)).after m₃
    let e := ((Value.ofDatum call).run m₃.serial).1
    let m₅ := (evaluate .bounded 0 e 0).after m₄
    let x : Value := .symbol (.ofName "X")
    let made (i : Serial) : Value := .pair i (.closure 5 (.pair 0 x .nil) x 0) (.number 1)
    (evaluate .bounded 0 e 0).given m₄ = [made 9] ∧
      (evaluate .bounded 0 e 0).given m₅ = [made 10] ∧
      (made 9).identical (made 10) = false ∧ (made 9).equal (made 10) = true ∧
      (made 9).equalByParts (made 10) = true ∧ (made 9).print = (made 10).print := by
  intro name list definition call m₁ m₂ m₃ m₄ e m₅ x made
  have h₁ : Reachable m₁ [.nil] := .perform (.blank none) .global
  have h₂ : Reachable m₂ [_, .nil] := .perform h₁ (.datum definition)
  have h₃ : Reachable m₃ _ :=
    .perform h₂ (.evaluate .bounded 0 (List.mem_cons_self ..) (by decide +kernel))
  have h₄ : Reachable m₄ (e :: _) := .perform h₃ (.datum call)
  have hfirst : (evaluate .bounded 0 e 0).given m₄ = [made 9] := by decide +kernel
  have hsecond : (evaluate .bounded 0 e 0).given m₅ = [made 10] := by decide +kernel
  have h₅ : Reachable m₅ _ :=
    .perform h₄ (.evaluate .bounded 0 (List.mem_cons_self ..) (by decide +kernel))
  rw [hfirst] at h₅
  have h₆ : Reachable ((evaluate .bounded 0 e 0).after m₅) _ :=
    .perform h₅ (.evaluate .bounded 0 (by simp) (by decide +kernel))
  rw [hsecond] at h₆
  have hlaws := moment_equalities (.between h₆)
  have hequal : (made 9).equal (made 10) = true := by decide +kernel
  have hparts := (hlaws.equal_eq (made 9) (by simp) (made 10) (by simp)).1
  have hprint := hlaws.print_eq (made 9) (by simp) (made 10) (by simp) hequal
  exact ⟨hfirst, hsecond, by decide +kernel, hequal, by rw [← hparts, hequal], hprint⟩

end Lisp
