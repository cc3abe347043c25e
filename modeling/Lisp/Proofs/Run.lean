import Lisp.Eval
import Mathlib.Order.Defs.Unbundled

/-! # Computations over the machine

The result of each operation written out, and the laws of sequencing: a relation between the
machine before and the machine after that is a preorder passes from the parts of a computation to
the whole, whether it ends with a value or stops. -/

namespace Lisp.Run

variable {α β : Type}

/-! ## The result of one operation -/

@[simp] theorem run_fail (e : Error) (m : Machine) :
    (fail e : Run α).run m = .error (.error e) m := rfl

@[simp] theorem run_ofExcept_ok (a : α) (m : Machine) :
    (ofExcept (.ok a)).run m = .ok a m := rfl

@[simp] theorem run_ofExcept_error (e : Error) (m : Machine) :
    (ofExcept (.error e) : Run α).run m = .error (.error e) m := rfl

@[simp] theorem run_fresh (make : Fresh α) (m : Machine) :
    (fresh make).run m = .ok (make.run m.serial).1 { m with serial := (make.run m.serial).2 } := rfl

@[simp] theorem run_lookup (f : FrameId) (x : Symbol) (m : Machine) :
    (lookup f x).run m = (ofExcept (m.heap.lookup f x)).run m := rfl

@[simp] theorem run_define (f : FrameId) (x : Symbol) (v : Value) (m : Machine) :
    (define f x v).run m = .ok () { m with heap := m.heap.define f x v } := rfl

theorem run_set (f : FrameId) (x : Symbol) (v : Value) (m : Machine) :
    (set f x v).run m =
      match m.heap.set f x v with
      | .ok heap => .ok () { m with heap }
      | .error e => .error (.error e) m := by
  cases h : m.heap.set f x v <;> simp [set, h]

@[simp] theorem run_isRoot (f : FrameId) (m : Machine) :
    (isRoot f).run m = .ok (m.heap.parent? f).isNone m := rfl

@[simp] theorem run_emit (e : Event) (m : Machine) :
    (emit e).run m = .ok () { m with events := m.events.push e } := rfl

theorem run_write (text : String) (m : Machine) :
    (write text).run m =
      if (m.sink.write text).1 then .ok () { m with sink := (m.sink.write text).2 }
      else .error (.error .sinkClosed) { m with sink := (m.sink.write text).2 } := by
  cases h : (m.sink.write text).1 <;> simp [write, h]

/-- Binding parameters either fails before anything is changed or adds one frame. -/
theorem run_extend (f : FrameId) (params : Value) (args : List Value) (m : Machine) :
    (extend f params args).run m =
      match Frame.ofParams f params args with
      | .ok make =>
        .ok m.heap.frames.size
          { m with
            heap := (m.heap.push (make.run m.serial).1).2
            serial := (make.run m.serial).2 }
      | .error e => .error (.error e) m := by
  rw [extend]
  cases Frame.ofParams f params args <;> rfl

theorem run_bind_of_ok {c : Run α} {k : α → Run β} {m m' : Machine} {a : α}
    (h : c.run m = .ok a m') : (c >>= k).run m = (k a).run m' := by
  rw [EStateM.run_bind, h]

theorem run_bind_of_error {c : Run α} {k : α → Run β} {m m' : Machine} {s : Stop}
    (h : c.run m = .error s m') : (c >>= k).run m = .error s m' := by
  rw [EStateM.run_bind, h]

theorem ofExcept_ok_bind (a : α) (k : α → Run β) : ofExcept (.ok a) >>= k = k a := rfl

/-! ## The machine afterwards -/

/-- The machine that a computation leaves, with a value or without. -/
def after (c : Run α) (m : Machine) : Machine :=
  match c.run m with
  | .ok _ m' | .error _ m' => m'

theorem after_of_ok {c : Run α} {m m' : Machine} {a : α} (h : c.run m = .ok a m') :
    c.after m = m' := by
  simp [after, h]

theorem after_of_error {c : Run α} {m m' : Machine} {s : Stop} (h : c.run m = .error s m') :
    c.after m = m' := by
  simp [after, h]

theorem after_bind_of_ok {c : Run α} {k : α → Run β} {m m' : Machine} {a : α}
    (h : c.run m = .ok a m') : (c >>= k).after m = (k a).after m' := by
  rw [after, run_bind_of_ok h, after]

theorem after_write (text : String) (m : Machine) :
    (write text).after m = { m with sink := (m.sink.write text).2 } := by
  rw [after, run_write]
  cases (m.sink.write text).1 <;> rfl

/-- Noting the call on an error does not touch the machine. -/
@[simp] theorem after_inContext (call : Value) (c : Run α) (m : Machine) :
    (inContext call c).after m = c.after m := by
  unfold after inContext
  rw [EStateM.run_adaptExcept]
  cases c.run m <;> rfl

/-! ## Laws of sequencing -/

/-- The computation takes every machine to one that is related to it. -/
def Respects (R : Machine → Machine → Prop) (c : Run α) : Prop :=
  ∀ m, R m (c.after m)

variable {R : Machine → Machine → Prop}

theorem Respects.inContext {c : Run α} (hc : Respects R c) (call : Value) :
    Respects R (Run.inContext call c) := by
  intro m
  rw [after_inContext]
  exact hc m

theorem Respects.of_ok {c : Run α} (hc : Respects R c) {m m' : Machine} {a : α}
    (h : c.run m = .ok a m') : R m m' := by
  have hm := hc m
  rwa [after_of_ok h] at hm

section Preorder

variable [IsPreorder Machine R]

theorem respects_pure (a : α) : Respects R (pure a : Run α) :=
  fun m => refl_of R m

theorem respects_fail (e : Error) : Respects R (fail e : Run α) :=
  fun m => refl_of R m

theorem respects_ofExcept (x : Except Error α) : Respects R (ofExcept x) := by
  cases x with
  | ok a => exact respects_pure a
  | error e => exact respects_fail e

theorem respects_lookup (f : FrameId) (x : Symbol) : Respects R (lookup f x) :=
  fun m => respects_ofExcept (m.heap.lookup f x) m

theorem respects_isRoot (f : FrameId) : Respects R (isRoot f) :=
  fun m => refl_of R m

/-- What is done with the value of a computation goes on from the machine it left. -/
theorem after_bind_respects {k : α → Run β} (hk : ∀ a, Respects R (k a)) (c : Run α)
    (m : Machine) : R (c.after m) ((c >>= k).after m) := by
  cases hr : c.run m with
  | ok a m' =>
      rw [after_bind_of_ok hr, after_of_ok hr]
      exact hk a m'
  | error s m' =>
      rw [after_of_error (run_bind_of_error hr), after_of_error hr]
      exact refl_of R m'

theorem Respects.bind {c : Run α} {k : α → Run β} (hc : Respects R c)
    (hk : ∀ a, Respects R (k a)) : Respects R (c >>= k) :=
  fun m => trans_of R (hc m) (after_bind_respects hk c m)

/-- After a result only its value, if it has one, matters. -/
theorem respects_ofExcept_bind {x : Except Error α} {k : α → Run β}
    (hk : ∀ a, x = .ok a → Respects R (k a)) : Respects R (ofExcept x >>= k) := by
  cases x with
  | ok a => exact hk a rfl
  | error e => exact respects_fail e

end Preorder

end Lisp.Run

namespace Lisp

namespace Value

/-- The elements of a list, without what follows its last pair. -/
def elements : Value → List Value
  | pair _ first rest => first :: rest.elements
  | _ => []

theorem mem_elements_of_first {v a : Value} (h : v.first = .ok a) : a ∈ v.elements := by
  cases v with
  | pair _ first rest =>
      cases h
      simp [elements]
  | number n => cases h
  | symbol s => cases h
  | closure i params body frame => cases h

theorem mem_elements_of_rest {v d a : Value} (h : v.rest = .ok d) (ha : a ∈ d.elements) :
    a ∈ v.elements := by
  cases v with
  | pair _ first rest =>
      cases h
      simp [elements, ha]
  | number n => cases h
  | symbol s => cases h
  | closure i params body frame => cases h

end Value

namespace Evaluator

/-- Reports a call and makes the frame for it. -/
def openFrame (params : Value) (frame : FrameId) (args : List Value) : Run FrameId := do
  Run.emit (.applyClosure params args.length)
  Run.extend frame params args

theorem apply_closure (ev : Evaluator) (i : Serial) (params body : Value) (frame : FrameId)
    (args : List Value) :
    ev.apply (.closure i params body frame) args =
      openFrame params frame args >>= fun f => ev body f := rfl

/-- The frame of a call is a new one. -/
theorem openFrame_ok {params : Value} {frame g : FrameId} {args : List Value} {m m' : Machine}
    (h : (openFrame params frame args).run m = .ok g m') :
    g = m.heap.frames.size ∧ ∃ new, m'.heap = (m.heap.push new).2 := by
  rw [openFrame, Run.run_bind_of_ok (Run.run_emit _ m), Run.run_extend] at h
  split at h
  · cases h
    exact ⟨rfl, _, rfl⟩
  · cases h

/-- A call whose parameters cannot be bound makes no frame. -/
theorem openFrame_error {params : Value} {frame : FrameId} {args : List Value} {m m' : Machine}
    {s : Stop} (h : (openFrame params frame args).run m = .error s m') : m'.heap = m.heap := by
  rw [openFrame, Run.run_bind_of_ok (Run.run_emit _ m), Run.run_extend] at h
  split at h
  · cases h
  · cases h
    rfl

variable {R : Machine → Machine → Prop} [IsPreorder Machine R] {ev : Evaluator} {f : FrameId}

theorem operands_respects {args : Value} (hev : ∀ a ∈ args.elements, Run.Respects R (ev a f)) :
    Run.Respects R (ev.operands f args) := by
  induction args with
  | pair _ first rest _ ih =>
      have hfirst : Run.Respects R (ev first f) := hev first (by simp [Value.elements])
      have hrest : Run.Respects R (ev.operands f rest) :=
        ih fun a ha => hev a (by simp [Value.elements, ha])
      exact hfirst.bind fun v => hrest.bind fun vs => Run.respects_pure (v :: vs)
  | number n => exact Run.respects_fail _
  | closure i params body frame => exact Run.respects_fail _
  | symbol s =>
      unfold operands
      split
      · exact Run.respects_pure []
      · exact Run.respects_fail _

/-- After the check of a target only a symbol goes on. -/
theorem respects_target_bind {α : Type} {form : SpecialForm} {v : Value} {k : Symbol → Run α}
    (hk : ∀ x, v = .symbol x → Run.Respects R (k x)) : Run.Respects R (target form v >>= k) := by
  cases v with
  | symbol x => exact hk x rfl
  | number n => exact Run.respects_fail _
  | pair i first rest => exact Run.respects_fail _
  | closure i params body frame => exact Run.respects_fail _

theorem cond_respects {args : Value}
    (hev : ∀ clause ∈ args.elements, ∀ a ∈ clause.elements, Run.Respects R (ev a f)) :
    Run.Respects R (ev.cond f args) := by
  induction args with
  | pair _ clause rest _ ih =>
      have hclause : ∀ a ∈ clause.elements, Run.Respects R (ev a f) :=
        hev clause (by simp [Value.elements])
      refine Run.respects_ofExcept_bind fun t ht => ?_
      refine (hclause t (Value.mem_elements_of_first ht)).bind fun test => ?_
      split
      · refine Run.respects_ofExcept_bind fun d hd => Run.respects_ofExcept_bind fun a ha => ?_
        exact hclause a (Value.mem_elements_of_rest hd (Value.mem_elements_of_first ha))
      · exact ih fun c hc => hev c (by simp [Value.elements, hc])
  | number n => exact Run.respects_fail _
  | closure i params body frame => exact Run.respects_fail _
  | symbol s =>
      unfold cond
      split
      · exact Run.respects_pure _
      · exact Run.respects_fail _

theorem print_respects {args : Value} (hwrite : ∀ text, Run.Respects R (Run.write text))
    (hev : ∀ a ∈ args.elements, Run.Respects R (ev a f)) : Run.Respects R (ev.print f args) := by
  refine Run.respects_ofExcept_bind fun a ha => ?_
  refine (hev a (Value.mem_elements_of_first ha)).bind fun v => ?_
  exact (hwrite _).bind fun _ => Run.respects_pure v

end Evaluator

end Lisp
