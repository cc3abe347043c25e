import Lisp.Proofs.Run

/-! # The evaluations inside an evaluation

`Evaluator.Enters` lists the evaluations that one step of another asks for, each with the machine
it starts from; `Reaches` follows them to any depth. `Evaluator.step_congr` says that nothing is
missing from the list. -/

namespace Lisp

/-- An expression to be evaluated in a frame, and the machine at that moment. -/
structure Task where
  expr : Value
  frame : FrameId
  machine : Machine

namespace Evaluator

/-- Evaluating operands comes to the operand `a`, all before it having given values. -/
inductive EntersOperand (ev : Evaluator) (f : FrameId) : Value → Machine → Value → Machine → Prop
  | here {i a rest m} : EntersOperand ev f (.pair i a rest) m a m
  | later {i first rest m v m₁ a m₂} : (ev first f).run m = .ok v m₁ →
      EntersOperand ev f rest m₁ a m₂ → EntersOperand ev f (.pair i first rest) m a m₂

/-- Evaluating clauses comes to the test or the expression `a` of one of them. -/
inductive EntersClause (ev : Evaluator) (f : FrameId) : Value → Machine → Value → Machine → Prop
  | test {i clause rest m t} : clause.first = .ok t →
      EntersClause ev f (.pair i clause rest) m t m
  | chosen {i clause rest m t v m₁ d a} : clause.first = .ok t → (ev t f).run m = .ok v m₁ →
      v.isTruthy = true → clause.rest = .ok d → d.first = .ok a →
      EntersClause ev f (.pair i clause rest) m a m₁
  | later {i clause rest m t v m₁ a m₂} : clause.first = .ok t → (ev t f).run m = .ok v m₁ →
      v.isTruthy = false → EntersClause ev f rest m₁ a m₂ →
      EntersClause ev f (.pair i clause rest) m a m₂

/-- One step of evaluating the first task evaluates the second, one level deeper. -/
inductive Enters (ev : Evaluator) : Task → Task → Prop
  | head {i head args f m} : specialForm? head = none →
      Enters ev ⟨.pair i head args, f, m⟩ ⟨head, f, m⟩
  | operand {i head args f m function m₁ a m₂} : specialForm? head = none →
      (ev head f).run m = .ok function m₁ → EntersOperand ev f args m₁ a m₂ →
      Enters ev ⟨.pair i head args, f, m⟩ ⟨a, f, m₂⟩
  | body {i head args f m j params body frame m₁ vs m₂ g m₃} : specialForm? head = none →
      (ev head f).run m = .ok (.closure j params body frame) m₁ →
      (ev.operands f args).run m₁ = .ok vs m₂ →
      (openFrame params frame vs).run m₂ = .ok g m₃ →
      Enters ev ⟨.pair i head args, f, m⟩ ⟨body, g, m₃⟩
  | set {i head args f m x d a} : specialForm? head = some .set →
      args.first = .ok (.symbol x) → args.rest = .ok d → d.first = .ok a →
      Enters ev ⟨.pair i head args, f, m⟩ ⟨a, f, m⟩
  | clause {i head args f m a m₁} : specialForm? head = some .cond →
      EntersClause ev f args m a m₁ → Enters ev ⟨.pair i head args, f, m⟩ ⟨a, f, m₁⟩
  | print {i head args f m a} : specialForm? head = some .print → args.first = .ok a →
      Enters ev ⟨.pair i head args, f, m⟩ ⟨a, f, m⟩

/-! ## Every evaluation is listed -/

section Congruence

variable {ev ev' : Evaluator} {f : FrameId}

theorem operands_congr {args : Value} {m : Machine}
    (h : ∀ a m', EntersOperand ev f args m a m' → (ev' a f).run m' = (ev a f).run m') :
    (ev'.operands f args).run m = (ev.operands f args).run m := by
  induction args generalizing m with
  | pair i first rest _ ih =>
      simp only [operands, EStateM.run_bind, h first m .here]
      cases hfirst : (ev first f).run m with
      | error s m₁ => rfl
      | ok v m₁ => simp only [ih fun a m' ha => h a m' (.later hfirst ha)]
  | number n => rfl
  | symbol s => rfl
  | closure i params body frame => rfl

theorem cond_congr {args : Value} {m : Machine}
    (h : ∀ a m', EntersClause ev f args m a m' → (ev' a f).run m' = (ev a f).run m') :
    (ev'.cond f args).run m = (ev.cond f args).run m := by
  induction args generalizing m with
  | pair i clause rest _ ih =>
      simp only [cond, EStateM.run_bind]
      cases ht : clause.first with
      | error e => rfl
      | ok t =>
          simp only [Run.run_ofExcept_ok, h t m (.test ht)]
          cases htest : (ev t f).run m with
          | error s m₁ => rfl
          | ok v m₁ =>
              cases hv : v.isTruthy with
              | false =>
                  simpa [hv] using ih fun a m' ha => h a m' (.later ht htest hv ha)
              | true =>
                  cases hd : clause.rest with
                  | error e => simp [hv]
                  | ok d =>
                      cases ha : d.first with
                      | error e => simp [hv, ha]
                      | ok a => simpa [hv, ha] using h a m₁ (.chosen ht htest hv hd ha)
  | number n => rfl
  | symbol s => rfl
  | closure i params body frame => rfl

theorem apply_congr {function : Value} {args : List Value} {m : Machine}
    (h : ∀ i params body frame g m', function = .closure i params body frame →
      (openFrame params frame args).run m = .ok g m' →
      (ev' body g).run m' = (ev body g).run m') :
    (ev'.apply function args).run m = (ev.apply function args).run m := by
  cases function with
  | closure i params body frame =>
      rw [apply_closure, apply_closure, EStateM.run_bind, EStateM.run_bind]
      cases hopen : (openFrame params frame args).run m with
      | error s m' => rfl
      | ok g m' => exact h i params body frame g m' rfl hopen
  | number n => rfl
  | symbol s => rfl
  | pair i first rest => rfl

theorem special_congr {i : Serial} {head args : Value} {m : Machine} {form : SpecialForm}
    (hform : specialForm? head = some form)
    (h : ∀ t, ev.Enters ⟨.pair i head args, f, m⟩ t →
      (ev' t.expr t.frame).run t.machine = (ev t.expr t.frame).run t.machine) :
    (ev'.special f args form).run m = (ev.special f args form).run m := by
  cases form with
  | quote => rfl
  | defun => rfl
  | cond => exact cond_congr fun a m' ha => h ⟨a, f, m'⟩ (.clause hform ha)
  | print =>
      simp only [special, print, EStateM.run_bind]
      cases ha : args.first with
      | error e => rfl
      | ok a => simp only [Run.run_ofExcept_ok, h ⟨a, f, m⟩ (.print hform ha)]
  | set =>
      simp only [special, set, EStateM.run_bind]
      cases hx : args.first with
      | error e => rfl
      | ok v =>
          cases v with
          | symbol x =>
              cases hd : args.rest with
              | error e => rfl
              | ok d =>
                  cases ha : d.first with
                  | error e => simp [target, ha]
                  | ok a =>
                      simp only [Run.run_ofExcept_ok, target, EStateM.run_pure, ha,
                        h ⟨a, f, m⟩ (.set hform hx hd ha)]
          | number n => rfl
          | pair j first rest => rfl
          | closure j params body frame => rfl

/-- Evaluators that agree on every task that a step enters agree on the step. -/
theorem step_congr {t : Task}
    (h : ∀ t', ev.Enters t t' →
      (ev' t'.expr t'.frame).run t'.machine = (ev t'.expr t'.frame).run t'.machine) :
    (ev'.step t.expr t.frame).run t.machine = (ev.step t.expr t.frame).run t.machine := by
  obtain ⟨e, f, m⟩ := t
  cases e with
  | number n => rfl
  | symbol s => rfl
  | closure i params body frame => rfl
  | pair i head args =>
      have hcall : (ev'.call f head args).run m = (ev.call f head args).run m := by
        unfold call
        cases hform : specialForm? head with
        | some form => exact special_congr hform h
        | none =>
            have hhead := h ⟨head, f, m⟩ (.head hform)
            simp only at hhead
            simp only [EStateM.run_bind, hhead]
            cases hfun : (ev head f).run m with
            | error s m₁ => rfl
            | ok function m₁ =>
                have hops : (ev'.operands f args).run m₁ = (ev.operands f args).run m₁ :=
                  operands_congr fun a m' ha => h ⟨a, f, m'⟩ (.operand hform hfun ha)
                simp only [hops]
                cases hargs : (ev.operands f args).run m₁ with
                | error s m₂ => rfl
                | ok vs m₂ =>
                    refine apply_congr fun j params body frame g m' hclosure hextend => ?_
                    subst function
                    exact h ⟨body, g, m'⟩ (.body hform hfun hargs hextend)
      simp only [step, Run.inContext, EStateM.run_adaptExcept, hcall]

end Congruence

/-! ## Before an inner evaluation

What every evaluation in the frame does to the machine, those before an inner one do together. -/

section Before

variable {R : Machine → Machine → Prop} [IsPreorder Machine R] {ev : Evaluator} {f : FrameId}
  {args a : Value} {m m₁ : Machine}

theorem EntersOperand.respects (hev : ∀ a, Run.Respects R (ev a f))
    (h : EntersOperand ev f args m a m₁) : R m m₁ := by
  induction h with
  | here => exact refl_of R _
  | later hfirst _ ih => exact trans_of R ((hev _).of_ok hfirst) ih

theorem EntersClause.respects (hev : ∀ a, Run.Respects R (ev a f))
    (h : EntersClause ev f args m a m₁) : R m m₁ := by
  induction h with
  | test => exact refl_of R _
  | chosen ht htest => exact (hev _).of_ok htest
  | later ht htest _ _ ih => exact trans_of R ((hev _).of_ok htest) ih

end Before

end Evaluator

/-- Evaluation over `levels` nested expressions comes, at some depth, to a task that is left with
fewer levels. -/
inductive Reaches (exhausted : Stop) : Nat → Task → Nat → Task → Prop
  | refl (n : Nat) (t : Task) : Reaches exhausted n t n t
  | enter {n k : Nat} {t t₁ t₂ : Task} : (eval exhausted n).Enters t t₁ →
      Reaches exhausted n t₁ k t₂ → Reaches exhausted (n + 1) t k t₂

end Lisp
