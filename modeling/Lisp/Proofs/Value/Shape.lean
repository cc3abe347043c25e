import Lisp.Value.Equality
import Lisp.Value.Printer

/-! # The shape of values

A datum describes a value if it has the same shape, whatever objects the value is made of. The
datum that describes a value without functions is all that its printed form depends on, and all
that equality sees of it as long as no serial number was used twice. -/

namespace Lisp

namespace Datum

/-- The value has the shape of the datum. -/
inductive Describes : Datum → Value → Prop
  | number (n : Int64) : Describes (.number n) (.number n)
  | symbol (s : Symbol) : Describes (.symbol s) (.symbol s)
  | pair {a d : Datum} {v w : Value} (serial : Serial) : Describes a v → Describes d w →
      Describes (.cons a d) (.pair serial v w)

variable {d e : Datum} {v w : Value}

theorem Describes.unique (hd : d.Describes v) (he : e.Describes v) : d = e := by
  induction hd generalizing e with
  | number n =>
      cases he
      rfl
  | symbol s =>
      cases he
      rfl
  | pair serial _ _ iha ihd =>
      cases he with
      | pair _ ha hd => rw [iha ha, ihd hd]

/-- Values of one shape are written alike. -/
theorem Describes.write_eq (hv : d.Describes v) (hw : d.Describes w) (inTail : Bool)
    (after : List Char) : v.write inTail after = w.write inTail after := by
  induction hv generalizing w inTail after with
  | number n =>
      cases hw
      rfl
  | symbol s =>
      cases hw
      rfl
  | pair serial _ _ iha ihd =>
      cases hw with
      | pair _ ha hd => rw [Value.write, Value.write, ihd hd, iha ha]

theorem Describes.print_eq (hv : d.Describes v) (hw : d.Describes w) : v.print = w.print := by
  rw [Value.print, Value.print, hv.write_eq hw]

/-- Values of one shape are equal. -/
theorem Describes.equal (hv : d.Describes v) (hw : d.Describes w) : v.equal w = true := by
  induction hv generalizing w with
  | number n =>
      cases hw
      simp [Value.equal, Value.identical]
  | symbol s =>
      cases hw
      simp [Value.equal, Value.identical]
  | pair serial _ _ iha ihd =>
      cases hw with
      | pair _ ha hd => simp [Value.equal, iha ha, ihd hd]

end Datum

namespace Value

/-! ## Objects and their serial numbers -/

/-- The second value is the first or a part of it. -/
inductive Contains : Value → Value → Prop
  | self (v : Value) : Contains v v
  | first {v w p : Value} (serial : Serial) : Contains v p → Contains (pair serial v w) p
  | rest {v w p : Value} (serial : Serial) : Contains w p → Contains (pair serial v w) p
  | params {v w p : Value} (serial : Serial) (frame : FrameId) : Contains v p →
      Contains (closure serial v w frame) p
  | body {v w p : Value} (serial : Serial) (frame : FrameId) : Contains w p →
      Contains (closure serial v w frame) p

/-- Pairs of one serial number in the two values are one pair. -/
def Coherent (v w : Value) : Prop :=
  ∀ serial a d b e, v.Contains (pair serial a d) → w.Contains (pair serial b e) → a = b ∧ d = e

theorem Coherent.symm {v w : Value} (h : Coherent v w) : Coherent w v := by
  intro serial a d b e ha hb
  obtain ⟨rfl, rfl⟩ := h serial b e a d hb ha
  exact ⟨rfl, rfl⟩

theorem Coherent.first {i j : Serial} {v w v' w' : Value}
    (h : Coherent (pair i v w) (pair j v' w')) : Coherent v v' :=
  fun serial a d b e ha hb => h serial a d b e (.first i ha) (.first j hb)

theorem Coherent.rest {i j : Serial} {v w v' w' : Value}
    (h : Coherent (pair i v w) (pair j v' w')) : Coherent w w' :=
  fun serial a d b e ha hb => h serial a d b e (.rest i ha) (.rest j hb)

/-! ## Made values -/

theorem run_ofDatum_cons (a d : Datum) (n : Serial) :
    (ofDatum (.cons a d)).run n =
      (pair ((ofDatum d).run ((ofDatum a).run n).2).2 ((ofDatum a).run n).1
          ((ofDatum d).run ((ofDatum a).run n).2).1,
        ((ofDatum d).run ((ofDatum a).run n).2).2 + 1) := rfl

/-- What is made from a datum has its shape. -/
theorem describes_ofDatum (d : Datum) (n : Serial) : d.Describes ((ofDatum d).run n).1 := by
  induction d generalizing n with
  | number k => exact .number k
  | symbol s => exact .symbol s
  | cons a d iha ihd =>
      rw [run_ofDatum_cons]
      exact .pair _ (iha n) (ihd _)

theorem le_run_ofDatum (d : Datum) (n : Serial) : n ≤ ((ofDatum d).run n).2 := by
  induction d generalizing n with
  | number k => exact Nat.le_refl n
  | symbol s => exact Nat.le_refl n
  | cons a d iha ihd =>
      rw [run_ofDatum_cons]
      calc
        n ≤ ((ofDatum a).run n).2 := iha n
        _ ≤ ((ofDatum d).run ((ofDatum a).run n).2).2 := ihd _
        _ ≤ _ := Nat.le_succ _

/-- The pairs that are made take their serial numbers from the counter. -/
theorem serial_ofDatum {d : Datum} {n serial : Serial} {v w : Value}
    (h : ((ofDatum d).run n).1.Contains (pair serial v w)) :
    n ≤ serial ∧ serial < ((ofDatum d).run n).2 := by
  induction d generalizing n with
  | number k => cases h
  | symbol s => cases h
  | cons a d iha ihd =>
      have hle := le_run_ofDatum a n
      have hle' := le_run_ofDatum d ((ofDatum a).run n).2
      rw [run_ofDatum_cons] at h ⊢
      cases h with
      | self => exact ⟨Nat.le_trans hle hle', Nat.lt_succ_self _⟩
      | first _ h =>
          have hrange := iha h
          exact ⟨hrange.1, Nat.lt_succ_of_le (Nat.le_trans (Nat.le_of_lt hrange.2) hle')⟩
      | rest _ h =>
          have hrange := ihd h
          exact ⟨Nat.le_trans hle hrange.1, Nat.lt_succ_of_lt hrange.2⟩

/-- Values made one after the other have no pair in common. -/
theorem coherent_ofDatum (d e : Datum) {n m : Serial} (hm : ((ofDatum d).run n).2 ≤ m) :
    Coherent ((ofDatum d).run n).1 ((ofDatum e).run m).1 := by
  intro serial v w v' w' hv hw
  have hlt : serial < m := Nat.lt_of_lt_of_le (serial_ofDatum hv).2 hm
  exact absurd (serial_ofDatum hw).1 (Nat.not_le_of_lt hlt)

end Value

/-- Equal values have one shape. -/
theorem Datum.Describes.eq_of_equal {d e : Datum} {v w : Value} (hv : d.Describes v)
    (hw : e.Describes w) (hcoherent : v.Coherent w) (h : v.equal w = true) : d = e := by
  induction hv generalizing e w with
  | number n =>
      cases hw with
      | number m => simpa [Value.equal, Value.identical] using h
      | symbol s => simp [Value.equal, Value.identical] at h
      | pair j ha hd => simp [Value.equal, Value.identical] at h
  | symbol s =>
      cases hw with
      | number m => simp [Value.equal, Value.identical] at h
      | symbol t => simpa [Value.equal, Value.identical] using h
      | pair j ha hd => simp [Value.equal, Value.identical] at h
  | pair i hva hvd iha ihd =>
      cases hw with
      | number m => simp [Value.equal, Value.identical] at h
      | symbol t => simp [Value.equal, Value.identical] at h
      | pair j hwa hwd =>
          simp only [Value.equal, Bool.or_eq_true, beq_iff_eq, Bool.and_eq_true] at h
          rcases h with rfl | ⟨ha, hd⟩
          · -- one serial number, so one pair
            obtain ⟨rfl, rfl⟩ := hcoherent i _ _ _ _ (.self _) (.self _)
            rw [hva.unique hwa, hvd.unique hwd]
          · rw [iha hwa hcoherent.first ha, ihd hwd hcoherent.rest hd]

end Lisp
