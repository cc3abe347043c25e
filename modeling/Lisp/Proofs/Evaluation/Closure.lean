import Lisp.Proofs.Run
import Lisp.Proofs.Evaluation.Errors

/-! # Properties closed under the operations

Evaluation is put together from a few operations on the machine. A property of computations that
each operation has, and that sequencing and the noting of a context keep, is one of evaluation to
any depth: `Run.Closed.eval`. -/

namespace Lisp

/-- Each operation on the machine has the property, and putting computations together keeps it. -/
structure Run.Closed (P : {α : Type} → Run α → Prop) : Prop where
  pure {α : Type} (a : α) : P (pure a : Run α)
  fail {α : Type} {e : Error} : e.isPlain = true → P (fail e : Run α)
  fresh {α : Type} (make : Fresh α) : P (fresh make)
  lookup (f : FrameId) (x : Symbol) : P (lookup f x)
  define (f : FrameId) (x : Symbol) (v : Value) : P (define f x v)
  push (frame : Frame) : P (push frame)
  isRoot (f : FrameId) : P (isRoot f)
  emit (e : Event) : P (emit e)
  write (text : String) : P (write text)
  bind {α β : Type} {c : Run α} {k : α → Run β} : P c → (∀ a, P (k a)) → P (c >>= k)
  inContext {α : Type} (call : Value) {c : Run α} : P c → P (inContext call c)

namespace Run.Closed

variable {P : {α : Type} → Run α → Prop} (hP : Closed P)

include hP

theorem ofExcept {α : Type} {x : Except Error α} (hx : PlainErrors x) : P (ofExcept x) := by
  cases x with
  | ok a => exact hP.pure a
  | error e => exact hP.fail (hx e rfl)

theorem first (v : Value) : P (Run.ofExcept v.first) :=
  hP.ofExcept v.first_plainErrors

theorem rest (v : Value) : P (Run.ofExcept v.rest) :=
  hP.ofExcept v.rest_plainErrors

theorem extend (f : FrameId) (params : Value) (args : List Value) : P (extend f params args) := by
  refine hP.bind (hP.ofExcept (Frame.ofParams_plainErrors f params args)) fun make => ?_
  exact hP.bind (hP.fresh make) hP.push

theorem target (form : SpecialForm) (v : Value) : P (Evaluator.target form v) := by
  cases v with
  | symbol x => exact hP.pure x
  | number n => exact hP.fail rfl
  | pair i a d => exact hP.fail rfl
  | closure i params body frame => exact hP.fail rfl

/-! ## One step -/

section Step

variable {ev : Evaluator} (hev : ∀ e f, P (ev e f)) (f : FrameId)

include hev

theorem operands (args : Value) : P (ev.operands f args) := by
  induction args with
  | pair i first rest _ ih =>
      exact hP.bind (hev first f) fun v => hP.bind ih fun vs => hP.pure (v :: vs)
  | number n => exact hP.fail rfl
  | closure i params body frame => exact hP.fail rfl
  | symbol x =>
      unfold Evaluator.operands
      split
      · exact hP.pure []
      · exact hP.fail rfl

theorem apply (function : Value) (args : List Value) : P (ev.apply function args) := by
  cases function with
  | closure i params body frame =>
      exact hP.bind (hP.emit _) fun _ => hP.bind (hP.extend frame params args) (hev body)
  | symbol x =>
      simp only [Evaluator.apply]
      split
      · exact hP.bind (hP.ofExcept (Primitive.apply_plainErrors _ args)) hP.fresh
      · exact hP.fail rfl
  | number n => exact hP.fail rfl
  | pair i first rest => exact hP.fail rfl

theorem set (args : Value) : P (ev.set f args) := by
  refine hP.bind (hP.first args) fun v => hP.bind (hP.target _ v) fun x => ?_
  refine hP.bind (hP.rest args) fun d => hP.bind (hP.first d) fun a => ?_
  refine hP.bind (hev a f) fun v => hP.bind (hP.isRoot f) fun root => ?_
  have hbind : P (do Run.define f x v; return v) :=
    hP.bind (hP.define f x v) fun _ => hP.pure v
  split
  · exact hP.bind (hP.emit _) fun _ => hbind
  · exact hbind

omit hev in
theorem defun (args : Value) : P (Evaluator.defun f args) := by
  refine hP.bind (hP.first args) fun v => hP.bind (hP.target _ v) fun x => ?_
  refine hP.bind (hP.rest args) fun d => hP.bind (hP.first d) fun params => ?_
  refine hP.bind (hP.rest d) fun d' => hP.bind (hP.first d') fun body => ?_
  refine hP.bind (hP.isRoot f) fun root => ?_
  have hbind : P (do
      Run.define f x (← Run.fresh (Value.function params body f))
      return Value.symbol x) :=
    hP.bind (hP.fresh _) fun function => hP.bind (hP.define f x function) fun _ => hP.pure _
  split
  · exact hP.bind (hP.emit _) fun _ => hbind
  · exact hbind

theorem cond (args : Value) : P (ev.cond f args) := by
  induction args with
  | pair i clause rest _ ih =>
      refine hP.bind (hP.first clause) fun t => hP.bind (hev t f) fun test => ?_
      split
      · exact hP.bind (hP.rest clause) fun d => hP.bind (hP.first d) fun a => hev a f
      · exact ih
  | number n => exact hP.fail rfl
  | closure i params body frame => exact hP.fail rfl
  | symbol x =>
      unfold Evaluator.cond
      split
      · exact hP.pure _
      · exact hP.fail rfl

theorem print (args : Value) : P (ev.print f args) := by
  refine hP.bind (hP.first args) fun a => hP.bind (hev a f) fun v => ?_
  exact hP.bind (hP.write _) fun _ => hP.pure v

theorem call (head args : Value) : P (ev.call f head args) := by
  unfold Evaluator.call
  split
  · rename_i form _
    cases form with
    | quote => exact hP.first args
    | set => exact hP.set hev f args
    | defun => exact hP.defun f args
    | cond => exact hP.cond hev f args
    | print => exact hP.print hev f args
  · refine hP.bind (hev head f) fun function => ?_
    exact hP.bind (hP.operands hev f args) fun vs => hP.apply hev function vs

theorem step (e : Value) : P (ev.step e f) := by
  cases e with
  | number n => exact hP.pure _
  | closure i params body frame => exact hP.pure _
  | symbol x =>
      simp only [Evaluator.step]
      split
      · exact hP.pure _
      · exact hP.lookup f x
  | pair i head args => exact hP.inContext _ (hP.call hev f head args)

end Step

/-- Evaluation to any depth has the property if stopping below the last level has it. -/
theorem eval {exhausted : Stop} (hstop : P (throw exhausted : Run Value)) (levels : Nat)
    (e : Value) (f : FrameId) : P (eval exhausted levels e f) := by
  induction levels generalizing e f with
  | zero => exact hstop
  | succ n ih => exact hP.step ih f e

end Run.Closed

end Lisp
