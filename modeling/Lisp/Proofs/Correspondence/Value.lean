import Lisp.Operator.Apply
import Mathlib.Data.List.Forall2
import Mathlib.Order.Defs.PartialOrder

/-! # Values that correspond

Two machines that do the same work make objects and frames of the same shape under different
numbers. A `Pairing` says which objects and frames of the one stand for which of the other. Values
correspond if they have one shape over paired objects; then they are printed alike, and neither
kind of equality tells them apart. -/

namespace Lisp

/-- The serial number of a pair or a function. -/
def Value.serial? : Value → Option Serial
  | pair i _ _ | closure i _ _ _ => some i
  | number _ | symbol _ => none

/-- Which objects and frames stand for each other. No serial number and no frame has two
partners, and one serial number is one object. -/
structure Pairing where
  object : Value → Value → Prop
  frame : FrameId → FrameId → Prop
  object_left : ∀ {v v' w w'}, object v v' → object w w' → v.serial? = w.serial? → v = w ∧ v' = w'
  object_right : ∀ {v v' w w'}, object v v' → object w w' → v'.serial? = w'.serial? →
    v = w ∧ v' = w'
  frame_iff : ∀ {f f' g g'}, frame f f' → frame g g' → (f = g ↔ f' = g')

namespace Pairing

/-- One pairing goes beyond another if it keeps all its pairs. -/
instance : Preorder Pairing where
  le p q := (∀ v v', p.object v v' → q.object v v') ∧ ∀ f f', p.frame f f' → q.frame f f'
  le_refl _ := ⟨fun _ _ h => h, fun _ _ h => h⟩
  le_trans _ _ _ h₁ h₂ :=
    ⟨fun v v' h => h₂.1 v v' (h₁.1 v v' h), fun f f' h => h₂.2 f f' (h₁.2 f f' h)⟩

variable {p : Pairing} {v v' w w' : Value}

theorem serial_iff (h : p.object v v') (h' : p.object w w') :
    v.serial? = w.serial? ↔ v'.serial? = w'.serial? := by
  constructor
  · intro heq
    rw [(p.object_left h h' heq).2]
  · intro heq
    rw [(p.object_right h h' heq).1]

end Pairing

namespace Value

/-- The values have one shape over paired objects and frames. -/
inductive Corresponds (p : Pairing) : Value → Value → Prop
  | number (n : Int64) : Corresponds p (number n) (number n)
  | symbol (s : Symbol) : Corresponds p (symbol s) (symbol s)
  | pair {i j : Serial} {a a' d d' : Value} : p.object (pair i a d) (pair j a' d') →
      Corresponds p a a' → Corresponds p d d' → Corresponds p (pair i a d) (pair j a' d')
  | closure {i j : Serial} {params params' body body' : Value} {f f' : FrameId} :
      p.object (closure i params body f) (closure j params' body' f') → p.frame f f' →
      Corresponds p params params' → Corresponds p body body' →
      Corresponds p (closure i params body f) (closure j params' body' f')

namespace Corresponds

variable {p q : Pairing} {v v' w w' : Value}

theorem mono (h : Corresponds p v v') (hpq : p ≤ q) : Corresponds q v v' := by
  induction h with
  | number n => exact .number n
  | symbol s => exact .symbol s
  | pair ho _ _ iha ihd => exact .pair (hpq.1 _ _ ho) iha ihd
  | closure ho hf _ _ ihparams ihbody =>
      exact .closure (hpq.1 _ _ ho) (hpq.2 _ _ hf) ihparams ihbody

theorem ofBool (b : Bool) : Corresponds p (ofBool b) (ofBool b) := by
  cases b <;> exact .symbol _

theorem isNil_eq (h : Corresponds p v v') : v.isNil = v'.isNil := by
  cases h <;> rfl

theorem isTruthy_eq (h : Corresponds p v v') : v.isTruthy = v'.isTruthy := by
  rw [isTruthy, isTruthy, h.isNil_eq]

theorem isAtom_eq (h : Corresponds p v v') : v.isAtom = v'.isAtom := by
  cases h <;> rfl

theorem write_eq (h : Corresponds p v v') (inTail : Bool) (after : List Char) :
    v.write inTail after = v'.write inTail after := by
  induction h generalizing inTail after with
  | number n => rfl
  | symbol s => rfl
  | pair _ _ _ iha ihd => rw [write, write, ihd, iha]
  | closure => cases inTail <;> rfl

theorem print_eq (h : Corresponds p v v') : v.print = v'.print := by
  rw [print, print, h.write_eq]

theorem identical_eq (hv : Corresponds p v v') (hw : Corresponds p w w') :
    v.identical w = v'.identical w' := by
  have hbeq : ∀ {i j i' j' : Serial}, (some i = some j ↔ some i' = some j') →
      (i == j) = (i' == j') := by
    intro i j i' j' h
    rw [Bool.eq_iff_iff]
    simpa using h
  cases hv with
  | number m => cases hw <;> rfl
  | symbol s => cases hw <;> rfl
  | pair ho ha hd =>
      cases hw with
      | pair ho' ha' hd' => exact hbeq (Pairing.serial_iff ho ho')
      | number n => rfl
      | symbol s => rfl
      | closure => rfl
  | closure ho hf hparams hbody =>
      cases hw with
      | closure ho' hf' hparams' hbody' => exact hbeq (Pairing.serial_iff ho ho')
      | number n => rfl
      | symbol s => rfl
      | pair => rfl

theorem equal_eq (hv : Corresponds p v v') (hw : Corresponds p w w') :
    v.equal w = v'.equal w' := by
  induction hv generalizing w w' with
  | number m => exact identical_eq (.number m) hw
  | symbol s => exact identical_eq (.symbol s) hw
  | closure ho hf hparams hbody _ _ => exact identical_eq (.closure ho hf hparams hbody) hw
  | pair ho ha hd iha ihd =>
      have hsame := identical_eq (.pair ho ha hd) hw
      cases hw with
      | pair ho' ha' hd' =>
          rw [equal, equal, iha ha', ihd hd']
          exact congrArg (· || _) hsame
      | number n => rfl
      | symbol s => rfl
      | closure => rfl

end Corresponds

end Value

/-! ## Errors -/

theorem Error.message_notAList (fault : ListFault) :
    (notAList fault).message = "Not a list: " ++ fault.message := rfl

theorem Error.message_type (fault : TypeFault) (context : Option Value) :
    (type fault context).message = "Type error: " ++ typeText fault context := rfl

/-- The text of a type error comes from the words of the cause and the printed call. -/
theorem Error.typeText_congr {fault fault' : TypeFault} {context context' : Option Value}
    (hfault : fault.message = fault'.message)
    (hcontext : context.map Value.print = context'.map Value.print) :
    typeText fault context = typeText fault' context' := by
  cases context with
  | none =>
      cases context' with
      | none => exact congrArg (· ++ "") hfault
      | some call => cases hcontext
  | some call =>
      cases context' with
      | none => cases hcontext
      | some call' =>
          have hcall : call.print = call'.print := Option.some.inj hcontext
          rw [typeText, typeText, hfault, Option.elim_some, Option.elim_some, hcall]

/-- Errors of one kind and one text, also after a call is noted on them. -/
inductive Error.Alike : Error → Error → Prop
  | refl (e : Error) : Alike e e
  | notAList {fault fault' : ListFault} : fault.message = fault'.message →
      Alike (notAList fault) (notAList fault')
  | type {fault fault' : TypeFault} {context context' : Option Value} :
      fault.message = fault'.message → context.map Value.print = context'.map Value.print →
      Alike (type fault context) (type fault' context')

namespace Error.Alike

variable {e e' : Error}

theorem ctorIdx_eq (h : Alike e e') : e.ctorIdx = e'.ctorIdx := by
  cases h <;> rfl

theorem message_eq (h : Alike e e') : e.message = e'.message := by
  cases h with
  | refl => rfl
  | notAList hfault => rw [message_notAList, message_notAList, hfault]
  | type hfault hcontext => rw [message_type, message_type, typeText_congr hfault hcontext]

theorem inContext (h : Alike e e') {call call' : Value} (hcall : call.print = call'.print) :
    Alike (e.inContext call) (e'.inContext call') := by
  cases h with
  | notAList hfault => exact .notAList hfault
  | refl e =>
      cases e with
      | type fault context =>
          simp only [Error.inContext]
          split
          · exact .refl _
          · exact .type rfl (congrArg some hcall)
      | _ => exact .refl _
  | type hfault hcontext =>
      simp only [Error.inContext, typeText_congr hfault hcontext]
      split
      · exact .type hfault hcontext
      · exact .type hfault (congrArg some hcall)

end Error.Alike

/-- The results are related values, or errors alike. -/
inductive Agree {α β : Type} (A : α → β → Prop) : Except Error α → Except Error β → Prop
  | ok {a : α} {b : β} : A a b → Agree A (.ok a) (.ok b)
  | error {e e' : Error} : e.Alike e' → Agree A (.error e) (.error e')

namespace Agree

variable {α β γ δ : Type} {A : α → β → Prop} {B : γ → δ → Prop}

theorem bind {x : Except Error α} {y : Except Error β} {k : α → Except Error γ}
    {l : β → Except Error δ} (hxy : Agree A x y) (hkl : ∀ a b, A a b → Agree B (k a) (l b)) :
    Agree B (x >>= k) (y >>= l) := by
  cases hxy with
  | ok hab => exact hkl _ _ hab
  | error he => exact .error he

theorem map {x : Except Error α} {y : Except Error β} {g : α → γ} {h : β → δ}
    (hxy : Agree A x y) (hgh : ∀ a b, A a b → B (g a) (h b)) : Agree B (x.map g) (y.map h) := by
  cases hxy with
  | ok hab => exact .ok (hgh _ _ hab)
  | error he => exact .error he

theorem mapM {k : α → Except Error γ} {l : β → Except Error δ}
    (hkl : ∀ a b, A a b → Agree B (k a) (l b)) {as : List α} {bs : List β}
    (h : List.Forall₂ A as bs) : Agree (List.Forall₂ B) (as.mapM k) (bs.mapM l) := by
  induction h with
  | nil => exact .ok .nil
  | cons hab _ ih =>
      rw [List.mapM_cons, List.mapM_cons]
      refine (hkl _ _ hab).bind fun c d hcd => ih.bind fun cs ds hcds => ?_
      exact .ok (.cons hcd hcds)

theorem foldlM {k : γ → α → Except Error γ} {l : γ → β → Except Error γ}
    (hkl : ∀ c a b, A a b → Agree Eq (k c a) (l c b)) {as : List α} {bs : List β}
    (h : List.Forall₂ A as bs) (c : γ) : Agree Eq (as.foldlM k c) (bs.foldlM l c) := by
  induction h generalizing c with
  | nil => exact .ok rfl
  | cons hab _ ih =>
      rw [List.foldlM_cons, List.foldlM_cons]
      refine (hkl c _ _ hab).bind ?_
      rintro d _ rfl
      exact ih d

end Agree

/-! ## Taking values apart -/

namespace Value.Corresponds

variable {p : Pairing} {v v' : Value}

theorem first (h : Corresponds p v v') : Agree (Corresponds p) v.first v'.first := by
  cases h with
  | pair _ ha _ => exact .ok ha
  | number n => exact .error (.refl _)
  | symbol s => exact .error (.refl _)
  | closure => exact .error (.notAList rfl)

theorem rest (h : Corresponds p v v') : Agree (Corresponds p) v.rest v'.rest := by
  cases h with
  | pair _ _ hd => exact .ok hd
  | number n => exact .error (.refl _)
  | symbol s => exact .error (.refl _)
  | closure => exact .error (.notAList rfl)

end Value.Corresponds

end Lisp
