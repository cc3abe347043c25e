import Lisp.Proofs.Run
import Lisp.Proofs.Evaluation.Errors
import Mathlib.Data.Nat.Find
import Mathlib.Logic.ExistsUnique

/-! # The depth limit

A limit on the depth of evaluation cuts off and does nothing else: as long as it is not reached,
evaluation does exactly what it does without one. The proof compares two evaluators one step at a
time; `Run.CutsOff` is the relation between them. -/

namespace Lisp

/-- The computation stopped for want of depth: by the limit, or because the fuel ran out. -/
def Stop.isDepth : Stop → Bool
  | .outOfFuel | .error (.tooDeep _) => true
  | _ => false

theorem Stop.isDepth_of_isPlain {e : Error} (h : e.isPlain = true) :
    (Stop.error e).isDepth = false := by
  cases e <;> simp_all [Stop.isDepth, Error.isPlain]

theorem Stop.isDepth_inContext (call : Value) (e : Error) :
    (Stop.error (e.inContext call)).isDepth = (Stop.error e).isDepth := by
  unfold Error.inContext
  split
  · split <;> rfl
  · rfl

namespace Run

variable {α β : Type} {s : Stop}

/-! ## Computations that need no depth -/

/-- The computation never stops for want of depth. -/
def Shallow (c : Run α) : Prop :=
  ∀ m t m', c.run m = .error t m' → t.isDepth = false

theorem shallow_pure (a : α) : Shallow (pure a : Run α) := by
  intro m t m' h
  cases h

theorem shallow_fail {e : Error} (he : e.isPlain = true) : Shallow (fail e : Run α) := by
  intro m t m' h
  cases h
  exact Stop.isDepth_of_isPlain he

theorem shallow_ofExcept {x : Except Error α} (hx : PlainErrors x) : Shallow (ofExcept x) := by
  cases x with
  | ok a => exact shallow_pure a
  | error e => exact shallow_fail (hx e rfl)

theorem shallow_fresh (make : Fresh α) : Shallow (fresh make) := by
  intro m t m' h
  cases h

theorem shallow_lookup (f : FrameId) (x : Symbol) : Shallow (lookup f x) :=
  fun m => shallow_ofExcept (m.heap.lookup_plainErrors f x) m

theorem shallow_define (f : FrameId) (x : Symbol) (v : Value) : Shallow (define f x v) := by
  intro m t m' h
  cases h

theorem shallow_isRoot (f : FrameId) : Shallow (isRoot f) := by
  intro m t m' h
  cases h

theorem shallow_emit (e : Event) : Shallow (emit e) := by
  intro m t m' h
  cases h

theorem shallow_write (text : String) : Shallow (write text) := by
  intro m t m' h
  rw [run_write] at h
  split at h
  · cases h
  · cases h
    rfl

theorem Shallow.bind {c : Run α} {k : α → Run β} (hc : Shallow c) (hk : ∀ a, Shallow (k a)) :
    Shallow (c >>= k) := by
  intro m t m' h
  cases hr : c.run m with
  | ok a m₁ =>
      rw [run_bind_of_ok hr] at h
      exact hk a m₁ t m' h
  | error t' m₁ =>
      rw [run_bind_of_error hr] at h
      cases h
      exact hc m t m' hr

theorem shallow_openFrame (params : Value) (frame : FrameId) (args : List Value) :
    Shallow (Evaluator.openFrame params frame args) := by
  refine (shallow_emit _).bind fun _ => ?_
  refine (shallow_ofExcept (Frame.ofParams_plainErrors frame params args)).bind fun make => ?_
  refine (shallow_fresh make).bind fun new => ?_
  intro m t m' h
  cases h

/-! ## Cutting off -/

/-- The first computation does what the second does, and not stop for want of depth, or it stops
with `s`. -/
def CutsOff (s : Stop) (c d : Run α) : Prop :=
  ∀ m, (c.run m = d.run m ∧ ∀ t m', c.run m = .error t m' → t.isDepth = false) ∨
    ∃ m', c.run m = .error s m'

theorem Shallow.cutsOff {c : Run α} (hc : Shallow c) : CutsOff s c c :=
  fun m => .inl ⟨rfl, hc m⟩

theorem CutsOff.bind {c d : Run α} {k l : α → Run β} (hc : CutsOff s c d)
    (hk : ∀ a, CutsOff s (k a) (l a)) : CutsOff s (c >>= k) (d >>= l) := by
  intro m
  rcases hc m with ⟨heq, hdepth⟩ | ⟨m', hstop⟩
  · cases hr : c.run m with
    | ok a m₁ =>
        rw [run_bind_of_ok hr, run_bind_of_ok (heq ▸ hr)]
        exact hk a m₁
    | error t m₁ =>
        refine .inl ⟨?_, ?_⟩
        · rw [run_bind_of_error hr, run_bind_of_error (heq ▸ hr)]
        · intro t' m' h
          rw [run_bind_of_error hr] at h
          cases h
          exact hdepth t m₁ hr
  · exact .inr ⟨m', run_bind_of_error hstop⟩

/-- The same result first, and then what depends on it. -/
theorem Shallow.cutsOff_bind {c : Run α} {k l : α → Run β} (hc : Shallow c)
    (hk : ∀ a, CutsOff s (k a) (l a)) : CutsOff s (c >>= k) (c >>= l) :=
  hc.cutsOff.bind hk

theorem CutsOff.inContext (hs : s.isDepth = true) {c d : Run α} (hc : CutsOff s c d)
    (call : Value) : CutsOff s (inContext call c) (inContext call d) := by
  intro m
  simp only [Run.inContext, EStateM.run_adaptExcept]
  rcases hc m with ⟨heq, hdepth⟩ | ⟨m', hstop⟩
  · refine .inl ⟨by rw [heq], ?_⟩
    intro t m' h
    cases hr : c.run m with
    | ok a m₁ =>
        rw [hr] at h
        cases h
    | error t' m₁ =>
        have ht := hdepth t' m₁ hr
        rw [hr] at h
        cases t' with
        | outOfFuel => cases ht
        | error e =>
            cases h
            rw [Stop.isDepth_inContext]
            exact ht
  · refine .inr ⟨m', ?_⟩
    rw [hstop]
    cases s with
    | outOfFuel => rfl
    | error e =>
        cases e with
        | tooDeep limit => rfl
        | _ => cases hs

end Run

/-! ## One step under two evaluators -/

namespace Evaluator

variable {s : Stop} {ev ev' : Evaluator} {f : FrameId}

theorem operands_cutsOff (hev : ∀ e f, (ev e f).CutsOff s (ev' e f)) (args : Value) :
    (ev.operands f args).CutsOff s (ev'.operands f args) := by
  induction args with
  | pair i first rest _ ih =>
      refine (hev first f).bind fun v => ih.bind fun vs => ?_
      exact (Run.shallow_pure _).cutsOff
  | number n => exact (Run.shallow_fail rfl).cutsOff
  | closure i params body frame => exact (Run.shallow_fail rfl).cutsOff
  | symbol x =>
      unfold operands
      split
      · exact (Run.shallow_pure _).cutsOff
      · exact (Run.shallow_fail rfl).cutsOff

theorem apply_cutsOff (hev : ∀ e f, (ev e f).CutsOff s (ev' e f)) (function : Value)
    (args : List Value) : (ev.apply function args).CutsOff s (ev'.apply function args) := by
  cases function with
  | closure i params body frame =>
      exact (Run.shallow_openFrame params frame args).cutsOff_bind fun g => hev body g
  | symbol x =>
      simp only [apply]
      split
      · rename_i op _
        refine (Run.shallow_ofExcept (op.apply_plainErrors args)).cutsOff_bind fun make => ?_
        exact (Run.shallow_fresh make).cutsOff
      · exact (Run.shallow_fail rfl).cutsOff
  | number n => exact (Run.shallow_fail rfl).cutsOff
  | pair i first rest => exact (Run.shallow_fail rfl).cutsOff

theorem shallow_target (form : SpecialForm) (v : Value) : (target form v).Shallow := by
  cases v with
  | symbol x => exact Run.shallow_pure x
  | number n => exact Run.shallow_fail rfl
  | pair i first rest => exact Run.shallow_fail rfl
  | closure i params body frame => exact Run.shallow_fail rfl

theorem shallow_first (v : Value) : (Run.ofExcept v.first).Shallow :=
  Run.shallow_ofExcept v.first_plainErrors

theorem shallow_rest (v : Value) : (Run.ofExcept v.rest).Shallow :=
  Run.shallow_ofExcept v.rest_plainErrors

theorem set_cutsOff (hev : ∀ e f, (ev e f).CutsOff s (ev' e f)) (args : Value) :
    (ev.set f args).CutsOff s (ev'.set f args) := by
  refine (shallow_first args).cutsOff_bind fun v => (shallow_target _ v).cutsOff_bind fun x => ?_
  refine (shallow_rest args).cutsOff_bind fun d => (shallow_first d).cutsOff_bind fun a => ?_
  refine (hev a f).bind fun v => Run.Shallow.cutsOff ?_
  have hbind : (do Run.define f x v; return v : Run Value).Shallow :=
    (Run.shallow_define f x v).bind fun _ => Run.shallow_pure v
  refine (Run.shallow_isRoot f).bind fun root => ?_
  split
  · exact (Run.shallow_emit _).bind fun _ => hbind
  · exact hbind

theorem defun_shallow (args : Value) : (defun f args).Shallow := by
  refine (shallow_first args).bind fun v => (shallow_target _ v).bind fun x => ?_
  refine (shallow_rest args).bind fun d => (shallow_first d).bind fun params => ?_
  refine (shallow_rest d).bind fun d' => (shallow_first d').bind fun body => ?_
  have hbind : (do
      Run.define f x (← Run.fresh (Value.function params body f))
      return Value.symbol x : Run Value).Shallow :=
    (Run.shallow_fresh _).bind fun function =>
      (Run.shallow_define f x function).bind fun _ => Run.shallow_pure _
  refine (Run.shallow_isRoot f).bind fun root => ?_
  split
  · exact (Run.shallow_emit _).bind fun _ => hbind
  · exact hbind

theorem cond_cutsOff (hev : ∀ e f, (ev e f).CutsOff s (ev' e f)) (args : Value) :
    (ev.cond f args).CutsOff s (ev'.cond f args) := by
  induction args with
  | pair i clause rest _ ih =>
      refine (shallow_first clause).cutsOff_bind fun t => (hev t f).bind fun test => ?_
      split
      · refine (shallow_rest clause).cutsOff_bind fun d => ?_
        exact (shallow_first d).cutsOff_bind fun a => hev a f
      · exact ih
  | number n => exact (Run.shallow_fail rfl).cutsOff
  | closure i params body frame => exact (Run.shallow_fail rfl).cutsOff
  | symbol x =>
      unfold cond
      split
      · exact (Run.shallow_pure _).cutsOff
      · exact (Run.shallow_fail rfl).cutsOff

theorem print_cutsOff (hev : ∀ e f, (ev e f).CutsOff s (ev' e f)) (args : Value) :
    (ev.print f args).CutsOff s (ev'.print f args) := by
  refine (shallow_first args).cutsOff_bind fun a => (hev a f).bind fun v => ?_
  exact ((Run.shallow_write _).bind fun _ => Run.shallow_pure v).cutsOff

theorem call_cutsOff (hev : ∀ e f, (ev e f).CutsOff s (ev' e f)) (head args : Value) :
    (ev.call f head args).CutsOff s (ev'.call f head args) := by
  unfold call
  split
  · rename_i form _
    cases form with
    | quote => exact (shallow_first args).cutsOff
    | set => exact set_cutsOff hev args
    | defun => exact (defun_shallow args).cutsOff
    | cond => exact cond_cutsOff hev args
    | print => exact print_cutsOff hev args
  · refine (hev head f).bind fun function => (operands_cutsOff hev args).bind fun vs => ?_
    exact apply_cutsOff hev function vs

theorem step_cutsOff (hs : s.isDepth = true) (hev : ∀ e f, (ev e f).CutsOff s (ev' e f))
    (e : Value) (f : FrameId) : (ev.step e f).CutsOff s (ev'.step e f) := by
  cases e with
  | number n => exact (Run.shallow_pure _).cutsOff
  | closure i params body frame => exact (Run.shallow_pure _).cutsOff
  | symbol x =>
      simp only [step]
      split
      · exact (Run.shallow_pure _).cutsOff
      · exact (Run.shallow_lookup f x).cutsOff
  | pair i head args => exact (call_cutsOff hev head args).inContext hs _

end Evaluator

/-- Fewer levels cut off evaluation over more levels. -/
theorem eval_cutsOff {s : Stop} (hs : s.isDepth = true) (s' : Stop) {n n' : Nat} (h : n ≤ n')
    (e : Value) (f : FrameId) : (eval s n e f).CutsOff s (eval s' n' e f) := by
  induction n generalizing n' e f with
  | zero => exact fun m => .inr ⟨m, rfl⟩
  | succ n ih =>
      cases n' with
      | zero => omega
      | succ n' => exact Evaluator.step_cutsOff hs (fun e f => ih (by omega) e f) e f

section Levels

variable {s s' : Stop} {n n' : Nat} {e : Value} {f : FrameId} {m m' : Machine}
  {r : EStateM.Result Stop Machine Value}

/-- The only stop for want of depth is the one that was asked for. -/
theorem eval_eq_of_isDepth (hs : s.isDepth = true) {t : Stop} (ht : t.isDepth = true)
    (h : (eval s n e f).run m = .error t m') : t = s := by
  rcases eval_cutsOff hs s (Nat.le_refl n) e f m with ⟨-, hdepth⟩ | ⟨m₁, hstop⟩
  · have hfalse := hdepth t m' h
    rw [ht] at hfalse
    cases hfalse
  · rw [h] at hstop
    cases hstop
    rfl

/-- A result that is not a cut-off is the result over any more levels. -/
theorem eval_of_le (hs : s.isDepth = true) (hn : n ≤ n') (h : (eval s n e f).run m = r)
    (hr : ∀ m', r ≠ .error s m') : (eval s' n' e f).run m = r := by
  rcases eval_cutsOff hs s' hn e f m with ⟨heq, -⟩ | ⟨m₁, hstop⟩
  · rw [← heq, h]
  · exact absurd (h.symm.trans hstop) (hr m₁)

end Levels

/-! ## Evaluation as a whole -/

/-- Evaluation ends with the result; running out of fuel is no end. -/
def EvaluatesTo (limits : Limits) (e : Value) (f : FrameId) (m : Machine)
    (r : EStateM.Result Stop Machine Value) : Prop :=
  ∃ fuel, (evaluate limits fuel e f).run m = r ∧ ∀ m', r ≠ .error .outOfFuel m'

section Evaluation

variable {parse : Option Nat} {limit : Nat} {e : Value} {f : FrameId} {m m' : Machine}
  {r r' : EStateM.Result Stop Machine Value}

theorem evaluatesTo_limit_iff :
    EvaluatesTo ⟨parse, some limit⟩ e f m r ↔
      (eval (.error (.tooDeep limit)) limit e f).run m = r := by
  constructor
  · rintro ⟨fuel, h, -⟩
    exact h
  · intro h
    refine ⟨0, h, ?_⟩
    rintro m' rfl
    have hstop := eval_eq_of_isDepth rfl rfl h
    cases hstop

theorem EvaluatesTo.unique_of_unlimited (h : EvaluatesTo ⟨parse, none⟩ e f m r)
    (h' : EvaluatesTo ⟨parse, none⟩ e f m r') : r = r' := by
  obtain ⟨fuel, hrun, hr⟩ := h
  obtain ⟨fuel', hrun', hr'⟩ := h'
  rcases Nat.le_total fuel fuel' with hle | hle
  · exact (eval_of_le rfl hle hrun hr).symm.trans hrun'
  · exact hrun.symm.trans (eval_of_le rfl hle hrun' hr')

/-- Under a limit that is not reached evaluation ends as it does without one. -/
theorem EvaluatesTo.of_limit (h : EvaluatesTo ⟨parse, some limit⟩ e f m r)
    (hr : ∀ m', r ≠ .error (.error (.tooDeep limit)) m') :
    (∀ limit' ≥ limit, EvaluatesTo ⟨parse, some limit'⟩ e f m r) ∧
      EvaluatesTo ⟨parse, none⟩ e f m r := by
  obtain ⟨fuel, hrun, hfuel⟩ := h
  constructor
  · intro limit' hle
    rw [evaluatesTo_limit_iff]
    exact eval_of_le rfl hle hrun hr
  · exact ⟨limit, eval_of_le rfl (Nat.le_refl limit) hrun hr, hfuel⟩

theorem EvaluatesTo.eval_eq_of_tooDeep {limits : Limits} {k : Nat}
    (h : EvaluatesTo limits e f m (.error (.error (.tooDeep k)) m')) : limits.eval = some k := by
  obtain ⟨parse, limit?⟩ := limits
  cases limit? with
  | none =>
      obtain ⟨fuel, hrun, -⟩ := h
      have hstop : Stop.error (.tooDeep k) = .outOfFuel := eval_eq_of_isDepth rfl rfl hrun
      cases hstop
  | some limit =>
      have hstop := eval_eq_of_isDepth rfl rfl (evaluatesTo_limit_iff.mp h)
      cases hstop
      rfl

open Classical in
/-- An evaluation that ends without a limit needs a definite depth. -/
theorem EvaluatesTo.exists_threshold (h : EvaluatesTo ⟨parse, none⟩ e f m r) :
    ∃ threshold, ∀ limit,
      (threshold ≤ limit → EvaluatesTo ⟨parse, some limit⟩ e f m r) ∧
      (limit < threshold →
        ∃ m', EvaluatesTo ⟨parse, some limit⟩ e f m (.error (.error (.tooDeep limit)) m')) := by
  obtain ⟨fuel, hrun, hr⟩ := h
  have hends : ∃ n, ∀ m', (eval .outOfFuel n e f).run m ≠ .error .outOfFuel m' :=
    ⟨fuel, fun m' h => hr m' (hrun.symm.trans h)⟩
  refine ⟨Nat.find hends, fun limit => ⟨?_, ?_⟩⟩
  · intro hle
    have hfind : (eval .outOfFuel (Nat.find hends) e f).run m = r := by
      rcases Nat.le_total (Nat.find hends) fuel with hn | hn
      · exact (eval_of_le rfl hn rfl (Nat.find_spec hends)).symm.trans hrun
      · exact eval_of_le rfl hn hrun hr
    rw [evaluatesTo_limit_iff]
    exact eval_of_le rfl hle hfind hr
  · intro hlt
    have hout : ∃ m', (eval .outOfFuel limit e f).run m = .error .outOfFuel m' := by
      simpa using Nat.find_min hends hlt
    obtain ⟨m', hout⟩ := hout
    -- were the limit not reached, evaluation over as many levels would not run out of fuel
    rcases eval_cutsOff (s := .error (.tooDeep limit)) rfl .outOfFuel (Nat.le_refl limit) e f m with
      ⟨heq, hdepth⟩ | ⟨m₁, hstop⟩
    · cases hdepth .outOfFuel m' (heq.trans hout)
    · exact ⟨m₁, evaluatesTo_limit_iff.mpr hstop⟩

end Evaluation

/-- A depth limit only cuts off. Under a limit evaluation always ends, in one way; if not for want
of depth, then so it ends under every higher limit and under none. The error of depth names the
limit in force. An evaluation that ends without a limit has a threshold: limits from there on do
not change it, and limits below it are exceeded. -/
theorem evaluate_depth_limit_cuts_off (parse : Option Nat) (e : Value) (f : FrameId)
    (m : Machine) :
    (∀ limit, ∃! r, EvaluatesTo ⟨parse, some limit⟩ e f m r) ∧
    (∀ r r', EvaluatesTo ⟨parse, none⟩ e f m r → EvaluatesTo ⟨parse, none⟩ e f m r' → r = r') ∧
    (∀ limit r, EvaluatesTo ⟨parse, some limit⟩ e f m r →
      (∀ k m', r ≠ .error (.error (.tooDeep k)) m') →
      (∀ limit' ≥ limit, EvaluatesTo ⟨parse, some limit'⟩ e f m r) ∧
        EvaluatesTo ⟨parse, none⟩ e f m r) ∧
    (∀ limits k m', EvaluatesTo limits e f m (.error (.error (.tooDeep k)) m') →
      limits.eval = some k) ∧
    (∀ r, EvaluatesTo ⟨parse, none⟩ e f m r → ∃ threshold, ∀ limit,
      (threshold ≤ limit → EvaluatesTo ⟨parse, some limit⟩ e f m r) ∧
      (limit < threshold →
        ∃ m', EvaluatesTo ⟨parse, some limit⟩ e f m (.error (.error (.tooDeep limit)) m'))) := by
  refine ⟨?_, ?_, ?_, ?_, ?_⟩
  · intro limit
    refine ⟨_, evaluatesTo_limit_iff.mpr rfl, ?_⟩
    intro r hr
    exact (evaluatesTo_limit_iff.mp hr).symm
  · intro r r' h h'
    exact h.unique_of_unlimited h'
  · intro limit r h hr
    exact h.of_limit fun m' => hr limit m'
  · intro limits k m' h
    exact h.eval_eq_of_tooDeep
  · intro r h
    exact h.exists_threshold

end Lisp
