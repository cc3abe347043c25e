import Lisp.Proofs.Error
import Lisp.Proofs.Evaluation.Depth
import Lisp.Proofs.Evaluation.Frames

/-! # Where an evaluation stops

`Evaluator.Raises` lists the errors that a step ends with by itself, all the evaluations it asked
for having given values. Every stop of an evaluation is one of these, or the want of levels, at one
task inside it, and on the way out only the noting of calls can change it. -/

namespace Lisp

theorem Run.run_bind_error_iff {α β : Type} {c : Run α} {k : α → Run β} {m m' : Machine}
    {s : Stop} :
    (c >>= k).run m = .error s m' ↔
      c.run m = .error s m' ∨ ∃ a m₁, c.run m = .ok a m₁ ∧ (k a).run m₁ = .error s m' := by
  cases hc : c.run m with
  | ok a m₁ => simp [run_bind_of_ok hc]
  | error s₁ m₁ => simp [run_bind_of_error hc]

theorem Run.run_ofExcept_bind_error {α β : Type} {x : Except Error α} {k : α → Run β}
    {m m' : Machine} {s : Stop} (h : (ofExcept x >>= k).run m = .error s m') :
    (∃ e, x = .error e ∧ s = .error e ∧ m' = m) ∨ ∃ a, x = .ok a ∧ (k a).run m = .error s m' := by
  cases x with
  | error e =>
      cases h
      exact .inl ⟨e, rfl, rfl, rfl⟩
  | ok a => exact .inr ⟨a, rfl, h⟩

theorem Value.exists_rest_of_first {v a : Value} (h : v.first = .ok a) : ∃ d, v.rest = .ok d := by
  cases v with
  | pair i first rest => exact ⟨rest, rfl⟩
  | _ => cases h

theorem Frame.ofParams_error_iff {f : FrameId} {params : Value} {args : List Value} {e : Error} :
    Frame.ofParams f params args = .error e ↔ ParameterMatch.ofParams params args = .error e := by
  rw [Frame.ofParams]
  cases ParameterMatch.ofParams params args <;> simp [Except.map]

/-! ## The errors of one step -/

/-- The operands of a special form are not what the form asks for. -/
inductive SpecialForm.Malformed : SpecialForm → Value → Error → Prop
  | first {form args e} : form ≠ cond → args.first = .error e → Malformed form args e
  | target {form args v} : form = set ∨ form = defun → args.first = .ok v → v.symbol? = none →
      Malformed form args (.type (.target form v) none)
  | second {form args x d e} : form = set ∨ form = defun → args.first = .ok (.symbol x) →
      args.rest = .ok d → d.first = .error e → Malformed form args e
  | third {args x d params d' e} : args.first = .ok (.symbol x) → args.rest = .ok d →
      d.first = .ok params → d.rest = .ok d' → d'.first = .error e → Malformed defun args e

/-- The value cannot be applied to the arguments. -/
inductive Value.Inapplicable (args : List Value) : Value → Error → Prop
  | number {n} : Inapplicable args (number n) (.type (.callable (number n)) none)
  | pair {i a d} : Inapplicable args (pair i a d) (.type (.callable (pair i a d)) none)
  | operator {s} : (∀ op, s.builtin? ≠ some (.primitive op)) →
      Inapplicable args (symbol s) (.unknownOperator s)
  | primitive {s op e} : s.builtin? = some (.primitive op) → op.apply args = .error e →
      Inapplicable args (symbol s) e
  | parameters {i params body frame e} : ParameterMatch.ofParams params args = .error e →
      Inapplicable args (closure i params body frame) e

/-- The machine at the moment arguments are taken: the call of a function has been reported. -/
def Machine.applying (m : Machine) (args : List Value) : Value → Machine
  | .closure _ params _ _ => { m with events := m.events.push (.applyClosure params args.length) }
  | _ => m

namespace Evaluator

/-- Evaluating operands comes to the rest of them, those before it having given values. -/
inductive PassesOperands (ev : Evaluator) (f : FrameId) : Value → Machine → Value → Machine → Prop
  | refl {args m} : PassesOperands ev f args m args m
  | next {i first rest m v m₁ later m₂} : (ev first f).run m = .ok v m₁ →
      PassesOperands ev f rest m₁ later m₂ → PassesOperands ev f (.pair i first rest) m later m₂

/-- Evaluating clauses comes to the rest of them, the tests of those before it having given
`NIL`. -/
inductive PassesClauses (ev : Evaluator) (f : FrameId) : Value → Machine → Value → Machine → Prop
  | refl {args m} : PassesClauses ev f args m args m
  | next {i clause rest m t v m₁ later m₂} : clause.first = .ok t → (ev t f).run m = .ok v m₁ →
      v.isTruthy = false → PassesClauses ev f rest m₁ later m₂ →
      PassesClauses ev f (.pair i clause rest) m later m₂

/-- The first of the clauses, or what stands in the place of clauses, is not of the right form. -/
inductive ClauseFault (ev : Evaluator) (f : FrameId) : Value → Machine → Error → Machine → Prop
  | tail {tail m e} : tail.first = .error e → tail.isNil = false → ClauseFault ev f tail m e m
  | test {i clause rest m e} : clause.first = .error e →
      ClauseFault ev f (.pair i clause rest) m e m
  | chosen {i clause rest m t v m₁ d e} : clause.first = .ok t → (ev t f).run m = .ok v m₁ →
      v.isTruthy = true → clause.rest = .ok d → d.first = .error e →
      ClauseFault ev f (.pair i clause rest) m e m₁

/-- The step of a task itself ends with the error, all evaluations before having given values. -/
inductive Raises (ev : Evaluator) : Task → Error → Machine → Prop
  | unbound {s f m} : s.isNil = false → s.isTruth = false → m.heap.lookup? f s = none →
      Raises ev ⟨.symbol s, f, m⟩ (.unbound s) m
  | operands {i head args f m function m₁ tail m₂} : specialForm? head = none →
      (ev head f).run m = .ok function m₁ → PassesOperands ev f args m₁ tail m₂ →
      tail.elements = [] → tail.isNil = false →
      Raises ev ⟨.pair i head args, f, m⟩ (.notAList (.operands tail)) m₂
  | apply {i head args f m function m₁ vs m₂ e} : specialForm? head = none →
      (ev head f).run m = .ok function m₁ → (ev.operands f args).run m₁ = .ok vs m₂ →
      function.Inapplicable vs e →
      Raises ev ⟨.pair i head args, f, m⟩ e (m₂.applying vs function)
  | malformed {i head args f m form e} : specialForm? head = some form → form.Malformed args e →
      Raises ev ⟨.pair i head args, f, m⟩ e m
  | clause {i head args f m rest m₁ e m₂} : specialForm? head = some .cond →
      PassesClauses ev f args m rest m₁ → ClauseFault ev f rest m₁ e m₂ →
      Raises ev ⟨.pair i head args, f, m⟩ e m₂
  | refused {i head args f m a v m₁} : specialForm? head = some .print → args.first = .ok a →
      (ev a f).run m = .ok v m₁ → (m₁.sink.write (v.print ++ "\n")).1 = false →
      Raises ev ⟨.pair i head args, f, m⟩ .sinkClosed
        { m₁ with sink := (m₁.sink.write (v.print ++ "\n")).2 }

/-- The task stops, by an error of its own or because a task that it enters stops. -/
def StopsBy (ev : Evaluator) (t : Task) (s : Stop) (m' : Machine) : Prop :=
  (∃ e, s = .error e ∧ ev.Raises t e m') ∨
    ∃ t₁, ev.Enters t t₁ ∧ (ev t₁.expr t₁.frame).run t₁.machine = .error s m'

/-! ## The list is complete -/

section Complete

variable {ev : Evaluator} {f : FrameId} {m m' : Machine} {s : Stop}

theorem operands_error {args : Value} (h : (ev.operands f args).run m = .error s m') :
    (∃ tail, PassesOperands ev f args m tail m' ∧ tail.elements = [] ∧ tail.isNil = false ∧
      s = .error (.notAList (.operands tail))) ∨
    ∃ a m₁, EntersOperand ev f args m a m₁ ∧ (ev a f).run m₁ = .error s m' := by
  induction args generalizing m with
  | pair i first rest _ ih =>
      rw [operands, Run.run_bind_error_iff] at h
      rcases h with hfirst | ⟨v, m₁, hfirst, hrest⟩
      · exact .inr ⟨first, m, .here, hfirst⟩
      · rw [Run.run_bind_error_iff] at hrest
        rcases hrest with hrest | ⟨vs, m₂, -, hpure⟩
        · rcases ih hrest with ⟨tail, hpass, htail⟩ | ⟨a, m₂, henter, ha⟩
          · exact .inl ⟨tail, .next hfirst hpass, htail⟩
          · exact .inr ⟨a, m₂, .later hfirst henter, ha⟩
        · cases hpure
  | number n =>
      cases h
      exact .inl ⟨_, .refl, rfl, rfl, rfl⟩
  | closure i params body frame =>
      cases h
      exact .inl ⟨_, .refl, rfl, rfl, rfl⟩
  | symbol x =>
      rw [operands] at h
      · split at h
        · cases h
        · rename_i hnil
          cases h
          exact .inl ⟨_, .refl, rfl, Bool.eq_false_iff.mpr hnil, rfl⟩
      · rintro _ _ _ ⟨⟩

/-- Clauses are passed over until one is malformed, or an evaluation inside one stops. -/
theorem cond_error {args : Value} (h : (ev.cond f args).run m = .error s m') :
    (∃ rest m₁ e, PassesClauses ev f args m rest m₁ ∧ ClauseFault ev f rest m₁ e m' ∧
      s = .error e) ∨
    ∃ a m₁, EntersClause ev f args m a m₁ ∧ (ev a f).run m₁ = .error s m' := by
  induction args generalizing m with
  | pair i clause rest _ ih =>
      rcases Run.run_ofExcept_bind_error h with ⟨e, ht, rfl, rfl⟩ | ⟨t, ht, h⟩
      · exact .inl ⟨_, _, e, .refl, .test ht, rfl⟩
      rcases Run.run_bind_error_iff.mp h with htest | ⟨v, m₁, htest, h⟩
      · exact .inr ⟨t, m, .test ht, htest⟩
      cases hv : v.isTruthy with
      | true =>
          rw [if_pos hv] at h
          obtain ⟨d, hd⟩ := Value.exists_rest_of_first ht
          rw [hd, Run.ofExcept_ok_bind] at h
          rcases Run.run_ofExcept_bind_error h with ⟨e, ha, rfl, rfl⟩ | ⟨a, ha, h⟩
          · exact .inl ⟨_, m, e, .refl, .chosen ht htest hv hd ha, rfl⟩
          · exact .inr ⟨a, m₁, .chosen ht htest hv hd ha, h⟩
      | false =>
          rw [if_neg (Bool.eq_false_iff.mp hv)] at h
          rcases ih h with ⟨rest', m₂, e, hpass, hfault⟩ | ⟨a, m₂, henter, ha⟩
          · exact .inl ⟨rest', m₂, e, .next ht htest hv hpass, hfault⟩
          · exact .inr ⟨a, m₂, .later ht htest hv henter, ha⟩
  | number n =>
      cases h
      exact .inl ⟨_, _, _, .refl, .tail rfl rfl, rfl⟩
  | closure i params body frame =>
      cases h
      exact .inl ⟨_, _, _, .refl, .tail rfl rfl, rfl⟩
  | symbol x =>
      rw [cond] at h
      · split at h
        · cases h
        · rename_i hnil
          cases h
          exact .inl ⟨_, _, _, .refl, .tail rfl (Bool.eq_false_iff.mpr hnil), rfl⟩
      · rintro _ _ _ ⟨⟩

theorem apply_error {function : Value} {args : List Value}
    (h : (ev.apply function args).run m = .error s m') :
    (∃ e, s = .error e ∧ function.Inapplicable args e ∧ m' = m.applying args function) ∨
    ∃ i params body frame g m₁, function = .closure i params body frame ∧
      (openFrame params frame args).run m = .ok g m₁ ∧ (ev body g).run m₁ = .error s m' := by
  cases function with
  | number n =>
      cases h
      exact .inl ⟨_, rfl, .number, rfl⟩
  | pair i a d =>
      cases h
      exact .inl ⟨_, rfl, .pair, rfl⟩
  | symbol x =>
      refine .inl ?_
      simp only [apply] at h
      split at h
      · rename_i op hop
        rcases Run.run_ofExcept_bind_error h with ⟨e, he, rfl, rfl⟩ | ⟨make, -, hmake⟩
        · exact ⟨e, rfl, .primitive hop he, rfl⟩
        · cases hmake
      · rename_i hop
        cases h
        exact ⟨_, rfl, .operator hop, rfl⟩
  | closure i params body frame =>
      rw [apply_closure, Run.run_bind_error_iff] at h
      rcases h with hopen | ⟨g, m₁, hopen, hbody⟩
      · refine .inl ?_
        rw [openFrame, Run.run_bind_of_ok (Run.run_emit _ m)] at hopen
        rcases Run.run_ofExcept_bind_error hopen with ⟨e, he, rfl, rfl⟩ | ⟨make, -, hmake⟩
        · exact ⟨e, rfl, .parameters (Frame.ofParams_error_iff.mp he), rfl⟩
        · cases hmake
      · exact .inr ⟨i, params, body, frame, g, m₁, rfl, hopen, hbody⟩

theorem target_bind_error {α : Type} {form : SpecialForm} {v : Value} {k : Symbol → Run α}
    (h : (target form v >>= k).run m = .error s m') :
    (v.symbol? = none ∧ s = .error (.type (.target form v) none) ∧ m' = m) ∨
      ∃ x, v = .symbol x ∧ (k x).run m = .error s m' := by
  cases v with
  | symbol x => exact .inr ⟨x, rfl, h⟩
  | _ =>
      cases h
      exact .inl ⟨rfl, rfl, rfl⟩

/-- Once its operand has a value, `SET` succeeds. -/
theorem set_error {args : Value} (h : (ev.set f args).run m = .error s m') :
    (∃ e, s = .error e ∧ SpecialForm.set.Malformed args e ∧ m' = m) ∨
    ∃ x d a, args.first = .ok (.symbol x) ∧ args.rest = .ok d ∧ d.first = .ok a ∧
      (ev a f).run m = .error s m' := by
  rcases Run.run_ofExcept_bind_error h with ⟨e, hx, rfl, rfl⟩ | ⟨v, hv, htarget⟩
  · exact .inl ⟨e, rfl, .first (by decide) hx, rfl⟩
  rcases target_bind_error htarget with ⟨hx, rfl, rfl⟩ | ⟨x, rfl, hrest⟩
  · exact .inl ⟨_, rfl, .target (.inl rfl) hv hx, rfl⟩
  obtain ⟨d, hd⟩ := Value.exists_rest_of_first hv
  rw [hd, Run.ofExcept_ok_bind] at hrest
  rcases Run.run_ofExcept_bind_error hrest with ⟨e, ha, rfl, rfl⟩ | ⟨a, ha, hvalue⟩
  · exact .inl ⟨e, rfl, .second (.inl rfl) hv hd ha, rfl⟩
  rcases Run.run_bind_error_iff.mp hvalue with hvalue | ⟨v, m₁, -, hbind⟩
  · exact .inr ⟨x, d, a, hv, hd, ha, hvalue⟩
  · -- what is left reports and binds, in either frame without fail
    rw [Run.run_bind_of_ok (Run.run_isRoot f m₁)] at hbind
    cases hroot : (m₁.heap.parent? f).isNone <;> rw [hroot] at hbind <;> cases hbind

theorem defun_error {args : Value} (h : (defun f args).run m = .error s m') :
    ∃ e, s = .error e ∧ SpecialForm.defun.Malformed args e ∧ m' = m := by
  rcases Run.run_ofExcept_bind_error h with ⟨e, hx, rfl, rfl⟩ | ⟨v, hv, htarget⟩
  · exact ⟨e, rfl, .first (by decide) hx, rfl⟩
  rcases target_bind_error htarget with ⟨hx, rfl, rfl⟩ | ⟨x, rfl, hrest⟩
  · exact ⟨_, rfl, .target (.inr rfl) hv hx, rfl⟩
  obtain ⟨d, hd⟩ := Value.exists_rest_of_first hv
  rw [hd, Run.ofExcept_ok_bind] at hrest
  rcases Run.run_ofExcept_bind_error hrest with ⟨e, hp, rfl, rfl⟩ | ⟨params, hp, hbody⟩
  · exact ⟨e, rfl, .second (.inr rfl) hv hd hp, rfl⟩
  obtain ⟨d', hd'⟩ := Value.exists_rest_of_first hp
  rw [hd', Run.ofExcept_ok_bind] at hbody
  rcases Run.run_ofExcept_bind_error hbody with ⟨e, hb, rfl, rfl⟩ | ⟨body, -, hbind⟩
  · exact ⟨e, rfl, .third hv hd hp hd' hb, rfl⟩
  · rw [Run.run_bind_of_ok (Run.run_isRoot f m)] at hbind
    cases hroot : (m.heap.parent? f).isNone <;> rw [hroot] at hbind <;> cases hbind

theorem print_error {args : Value} (h : (ev.print f args).run m = .error s m') :
    (∃ e, s = .error e ∧ SpecialForm.print.Malformed args e ∧ m' = m) ∨
    (∃ a, args.first = .ok a ∧ (ev a f).run m = .error s m') ∨
    ∃ a v m₁, args.first = .ok a ∧ (ev a f).run m = .ok v m₁ ∧
      (m₁.sink.write (v.print ++ "\n")).1 = false ∧ s = .error .sinkClosed ∧
      m' = { m₁ with sink := (m₁.sink.write (v.print ++ "\n")).2 } := by
  rcases Run.run_ofExcept_bind_error h with ⟨e, ha, rfl, rfl⟩ | ⟨a, ha, h⟩
  · exact .inl ⟨e, rfl, .first (by decide) ha, rfl⟩
  rcases Run.run_bind_error_iff.mp h with h | ⟨v, m₁, hv, h⟩
  · exact .inr (.inl ⟨a, ha, h⟩)
  rcases Run.run_bind_error_iff.mp h with h | ⟨_, _, -, h⟩
  · rw [Run.run_write] at h
    split at h
    · cases h
    · rename_i hrefused
      cases h
      exact .inr (.inr ⟨a, v, m₁, ha, hv, Bool.eq_false_iff.mpr hrefused, rfl, rfl⟩)
  · cases h

/-- A call stops only by an error of its own or with an evaluation inside it. -/
theorem stopsBy_of_call {i : Serial} {head args : Value}
    (h : (ev.call f head args).run m = .error s m') :
    ev.StopsBy ⟨.pair i head args, f, m⟩ s m' := by
  unfold call at h
  split at h
  · rename_i form hform
    cases form with
    | quote =>
        cases hfirst : args.first with
        | ok a => simp [special, quote, hfirst] at h
        | error e =>
            simp only [special, quote, hfirst, Run.run_ofExcept_error] at h
            cases h
            exact .inl ⟨e, rfl, .malformed hform (.first (by decide) hfirst)⟩
    | set =>
        rcases set_error h with ⟨e, rfl, hshape, rfl⟩ | ⟨x, d, a, hx, hd, ha, h⟩
        · exact .inl ⟨e, rfl, .malformed hform hshape⟩
        · exact .inr ⟨⟨a, f, m⟩, .set hform hx hd ha, h⟩
    | defun =>
        obtain ⟨e, rfl, hshape, rfl⟩ := defun_error h
        exact .inl ⟨e, rfl, .malformed hform hshape⟩
    | cond =>
        rcases cond_error h with ⟨rest, m₁, e, hpass, hfault, rfl⟩ | ⟨a, m₁, henter, h⟩
        · exact .inl ⟨e, rfl, .clause hform hpass hfault⟩
        · exact .inr ⟨⟨a, f, m₁⟩, .clause hform henter, h⟩
    | print =>
        rcases print_error h with ⟨e, rfl, hshape, rfl⟩ | ⟨a, ha, h⟩ |
          ⟨a, v, m₁, ha, hv, hrefused, rfl, rfl⟩
        · exact .inl ⟨e, rfl, .malformed hform hshape⟩
        · exact .inr ⟨⟨a, f, m⟩, .print hform ha, h⟩
        · exact .inl ⟨_, rfl, .refused hform ha hv hrefused⟩
  · rename_i hform
    rcases Run.run_bind_error_iff.mp h with h | ⟨function, m₁, hfun, h⟩
    · exact .inr ⟨⟨head, f, m⟩, .head hform, h⟩
    rcases Run.run_bind_error_iff.mp h with h | ⟨vs, m₂, hargs, h⟩
    · rcases operands_error h with ⟨tail, hpass, htail, hnil, rfl⟩ | ⟨a, m₂, henter, h⟩
      · exact .inl ⟨_, rfl, .operands hform hfun hpass htail hnil⟩
      · exact .inr ⟨⟨a, f, m₂⟩, .operand hform hfun henter, h⟩
    rcases apply_error h with ⟨e, rfl, hfault, rfl⟩ | ⟨j, params, body, frame, g, m₃, rfl, hopen, h⟩
    · exact .inl ⟨e, rfl, .apply hform hfun hargs hfault⟩
    · exact .inr ⟨⟨body, g, m₃⟩, .body hform hfun hargs hopen, h⟩

end Complete

/-! ## What is listed does stop the call -/

section Sound

variable {ev : Evaluator} {f : FrameId} {m m₁ m' : Machine} {s : Stop}

theorem EntersOperand.operands_error {args a : Value} (h : EntersOperand ev f args m a m₁)
    (hstop : (ev a f).run m₁ = .error s m') : (ev.operands f args).run m = .error s m' := by
  induction h with
  | here => exact Run.run_bind_of_error hstop
  | later hfirst _ ih =>
      rw [operands, Run.run_bind_of_ok hfirst]
      exact Run.run_bind_of_error (ih hstop)

theorem PassesOperands.operands_error {args rest : Value} (h : PassesOperands ev f args m rest m₁)
    (htail : rest.elements = []) (hnil : rest.isNil = false) :
    (ev.operands f args).run m = .error (.error (.notAList (.operands rest))) m₁ := by
  induction h with
  | refl =>
      rename_i rest _
      cases rest with
      | pair i first rest => cases htail
      | _ => simp [operands, hnil]
  | next hfirst _ ih =>
      rw [operands, Run.run_bind_of_ok hfirst]
      exact Run.run_bind_of_error (ih htail hnil)

/-- A clause whose test gives `NIL` is passed over. -/
theorem cond_of_test_nil {i : Serial} {clause rest t v : Value} (ht : clause.first = .ok t)
    (htest : (ev t f).run m = .ok v m₁) (hv : v.isTruthy = false) :
    (ev.cond f (.pair i clause rest)).run m = (ev.cond f rest).run m₁ := by
  rw [cond, ht, Run.ofExcept_ok_bind, Run.run_bind_of_ok htest, hv]
  rfl

theorem cond_of_test {i : Serial} {clause rest t v d : Value} (ht : clause.first = .ok t)
    (htest : (ev t f).run m = .ok v m₁) (hv : v.isTruthy = true) (hd : clause.rest = .ok d) :
    (ev.cond f (.pair i clause rest)).run m =
      (do ev (← Run.ofExcept d.first) f : Run Value).run m₁ := by
  rw [cond, ht, Run.ofExcept_ok_bind, Run.run_bind_of_ok htest, hv, hd]
  rfl

theorem EntersClause.cond_error {args a : Value} (h : EntersClause ev f args m a m₁)
    (hstop : (ev a f).run m₁ = .error s m') : (ev.cond f args).run m = .error s m' := by
  induction h with
  | test ht =>
      rw [cond, ht, Run.ofExcept_ok_bind]
      exact Run.run_bind_of_error hstop
  | chosen ht htest hv hd ha => rwa [cond_of_test ht htest hv hd, ha, Run.ofExcept_ok_bind]
  | later ht htest hv _ ih =>
      rw [cond_of_test_nil ht htest hv]
      exact ih hstop

theorem ClauseFault.cond_error {args : Value} {e : Error} (h : ClauseFault ev f args m e m₁) :
    (ev.cond f args).run m = .error (.error e) m₁ := by
  cases h with
  | tail hfirst hnil =>
      cases args with
      | pair i clause rest => cases hfirst
      | _ =>
          cases hfirst
          simp [cond, hnil]
  | test ht =>
      rw [cond, ht]
      rfl
  | chosen ht htest hv hd ha =>
      rw [cond_of_test ht htest hv hd, ha]
      rfl

theorem PassesClauses.cond_eq {args rest : Value} (h : PassesClauses ev f args m rest m₁) :
    (ev.cond f args).run m = (ev.cond f rest).run m₁ := by
  induction h with
  | refl => rfl
  | next ht htest hv _ ih => rw [cond_of_test_nil ht htest hv, ih]

theorem apply_of_inapplicable {function : Value} {vs : List Value} {e : Error}
    (h : function.Inapplicable vs e) :
    (ev.apply function vs).run m = .error (.error e) (m.applying vs function) := by
  cases h with
  | number => rfl
  | pair => rfl
  | operator hop =>
      simp only [apply]
      rfl
  | primitive hop he =>
      simp only [apply, hop, he]
      rfl
  | parameters he =>
      rename_i i params body frame
      rw [apply_closure, openFrame, bind_assoc, Run.run_bind_of_ok (Run.run_emit _ m),
        Run.extend, Frame.ofParams_error_iff.mpr he]
      rfl

theorem special_of_malformed {form : SpecialForm} {args : Value} {e : Error}
    (h : form.Malformed args e) : (ev.special f args form).run m = .error (.error e) m := by
  cases h with
  | first hform he =>
      cases form with
      | cond => exact absurd rfl hform
      | quote => rw [special, quote, he, Run.run_ofExcept_error]
      | set => rw [special, set, he]; rfl
      | defun => rw [special, defun, he]; rfl
      | print => rw [special, print, he]; rfl
  | target hform hv hx =>
      rename_i v
      have htarget : target form v = Run.fail (.type (.target form v) none) := by
        cases v with
        | symbol x => cases hx
        | _ => rfl
      rcases hform with rfl | rfl
      · rw [special, set, hv, Run.ofExcept_ok_bind, htarget]; rfl
      · rw [special, defun, hv, Run.ofExcept_ok_bind, htarget]; rfl
  | second hform hx hd ha =>
      rcases hform with rfl | rfl
      · rw [special, set, hx, hd, Run.ofExcept_ok_bind, target, pure_bind, Run.ofExcept_ok_bind, ha]
        rfl
      · rw [special, defun, hx, hd, Run.ofExcept_ok_bind, target, pure_bind, Run.ofExcept_ok_bind,
          ha]
        rfl
  | third hx hd hp hd' hb =>
      rw [special, defun, hx, hd, Run.ofExcept_ok_bind, target, pure_bind, Run.ofExcept_ok_bind, hp,
        Run.ofExcept_ok_bind, hd', Run.ofExcept_ok_bind, hb]
      rfl

theorem call_of_raises {i : Serial} {head args : Value} {e : Error}
    (h : ev.Raises ⟨.pair i head args, f, m⟩ e m') :
    (ev.call f head args).run m = .error (.error e) m' := by
  cases h with
  | operands hform hfun hpass htail hnil =>
      simp only [call, hform, Run.run_bind_of_ok hfun]
      exact Run.run_bind_of_error (hpass.operands_error htail hnil)
  | apply hform hfun hargs hfault =>
      simp only [call, hform, Run.run_bind_of_ok hfun, Run.run_bind_of_ok hargs]
      exact apply_of_inapplicable hfault
  | malformed hform hshape =>
      simp only [call, hform]
      exact special_of_malformed hshape
  | clause hform hpass hfault =>
      simp only [call, hform, special, hpass.cond_eq]
      exact hfault.cond_error
  | refused hform ha hv hrefused =>
      simp only [call, hform, special, print, ha, Run.ofExcept_ok_bind, Run.run_bind_of_ok hv]
      apply Run.run_bind_of_error
      rw [Run.run_write, if_neg (Bool.eq_false_iff.mp hrefused)]

theorem call_of_enters {i : Serial} {head args : Value} {t : Task}
    (h : ev.Enters ⟨.pair i head args, f, m⟩ t)
    (hstop : (ev t.expr t.frame).run t.machine = .error s m') :
    (ev.call f head args).run m = .error s m' := by
  cases h with
  | head hform =>
      simp only [call, hform]
      exact Run.run_bind_of_error hstop
  | operand hform hfun henter =>
      simp only [call, hform, Run.run_bind_of_ok hfun]
      exact Run.run_bind_of_error (henter.operands_error hstop)
  | body hform hfun hargs hopen =>
      simp only [call, hform, Run.run_bind_of_ok hfun, Run.run_bind_of_ok hargs, apply_closure,
        Run.run_bind_of_ok hopen]
      exact hstop
  | set hform hx hd ha =>
      simp only [call, hform, special, set, hx, hd, ha, target, Run.ofExcept_ok_bind, pure_bind]
      exact Run.run_bind_of_error hstop
  | clause hform henter =>
      simp only [call, hform, special]
      exact henter.cond_error hstop
  | print hform ha =>
      simp only [call, hform, special, print, ha, Run.ofExcept_ok_bind]
      exact Run.run_bind_of_error hstop

theorem call_error_iff {i : Serial} {head args : Value} :
    (ev.call f head args).run m = .error s m' ↔ ev.StopsBy ⟨.pair i head args, f, m⟩ s m' := by
  constructor
  · exact stopsBy_of_call
  · rintro (⟨e, rfl, hraise⟩ | ⟨t, henter, hstop⟩)
    · exact call_of_raises hraise
    · exact call_of_enters henter hstop

end Sound

/-- An error that a step raises by itself is a plain one, or the sink's. -/
theorem Raises.plain {ev : Evaluator} {t : Task} {e : Error} {m' : Machine}
    (h : ev.Raises t e m') : e.isPlain = true ∨ e = .sinkClosed := by
  cases h with
  | unbound hnil htruth hlookup => exact .inl rfl
  | operands hform hfun hpass htail hnil => exact .inl rfl
  | apply hform hfun hargs hfault =>
      left
      cases hfault with
      | number => rfl
      | pair => rfl
      | operator hop => rfl
      | primitive hop he => exact Primitive.apply_plainErrors _ _ _ he
      | parameters he => exact ParameterMatch.ofParams_plainErrors _ _ _ he
  | malformed hform hshape =>
      left
      cases hshape with
      | first hform he => exact Value.first_plainErrors _ _ he
      | target hform hv hx => rfl
      | second hform hx hd he => exact Value.first_plainErrors _ _ he
      | third hx hd hp hd' he => exact Value.first_plainErrors _ _ he
  | clause hform hpass hfault =>
      left
      cases hfault with
      | tail he hnil => exact Value.first_plainErrors _ _ he
      | test he => exact Value.first_plainErrors _ _ he
      | chosen ht htest hv hd he => exact Value.first_plainErrors _ _ he
  | refused hform ha hv hrefused => exact .inr rfl

end Evaluator

/-! ## Noting calls on the way out -/

def Stop.inContext (call : Value) : Stop → Stop
  | error e => error (e.inContext call)
  | outOfFuel => outOfFuel

namespace Stop

theorem inContext_inContext (outer inner : Value) (s : Stop) :
    (s.inContext inner).inContext outer = s.inContext inner := by
  cases s with
  | error e => exact congrArg error (e.inContext_inContext outer inner)
  | outOfFuel => rfl

theorem inContext_of_isDepth {s : Stop} (hs : s.isDepth = true) (call : Value) :
    s.inContext call = s := by
  cases s with
  | outOfFuel => rfl
  | error e =>
      cases e with
      | tooDeep limit => rfl
      | _ => cases hs

end Stop

theorem Run.run_inContext_error_iff {α : Type} {call : Value} {c : Run α} {m m' : Machine}
    {s : Stop} :
    (inContext call c).run m = .error s m' ↔
      ∃ s₀, c.run m = .error s₀ m' ∧ s = s₀.inContext call := by
  rw [inContext, EStateM.run_adaptExcept]
  cases c.run m with
  | ok a m₁ => simp
  | error s₀ m₁ =>
      cases s₀ <;> simp [Stop.inContext, and_comm, eq_comm]

namespace Evaluator

/-- A step stops with what stops it, noted with its call. -/
theorem step_error_iff {ev : Evaluator} {t : Task} {s : Stop} {m' : Machine} :
    (ev.step t.expr t.frame).run t.machine = .error s m' ↔
      ∃ s₀, ev.StopsBy t s₀ m' ∧ s = s₀.inContext t.expr := by
  obtain ⟨e, f, m⟩ := t
  cases e with
  | pair i head args =>
      simp only [step, Run.run_inContext_error_iff, call_error_iff (i := i)]
  | number n =>
      constructor
      · rintro ⟨⟩
      · rintro ⟨s₀, ⟨e, -, ⟨⟩⟩ | ⟨t, ⟨⟩, -⟩, -⟩
  | closure i params body frame =>
      constructor
      · rintro ⟨⟩
      · rintro ⟨s₀, ⟨e, -, ⟨⟩⟩ | ⟨t, ⟨⟩, -⟩, -⟩
  | symbol x =>
      simp only [step]
      constructor
      · intro h
        split at h
        · cases h
        · rename_i hname
          rw [Run.run_lookup, Heap.lookup] at h
          split at h
          · cases h
          · rename_i hlookup
            cases h
            simp only [Bool.or_eq_true, not_or, Bool.not_eq_true] at hname
            exact ⟨_, .inl ⟨_, rfl, .unbound hname.1 hname.2 hlookup⟩, rfl⟩
      · rintro ⟨s₀, ⟨e, rfl, ⟨hnil, htruth, hlookup⟩⟩ | ⟨t, ⟨⟩, -⟩, rfl⟩
        simp only [hnil, htruth, Bool.or_false, Bool.false_eq_true, if_false, Run.run_lookup,
          Heap.lookup, hlookup]
        rfl

end Evaluator

/-! ## The task that stops an evaluation -/

/-- The task stops without the help of another: no level is left for it, or its step raises an
error of its own. -/
inductive Stops (exhausted : Stop) : Nat → Task → Stop → Machine → Prop
  | deep (t : Task) : Stops exhausted 0 t exhausted t.machine
  | raise {n : Nat} {t : Task} {e : Error} {m' : Machine} : (eval exhausted n).Raises t e m' →
      Stops exhausted (n + 1) t (.error e) m'

/-- An evaluation stops if and only if one task inside it does, with the stop of that task, noted
there and nowhere else. -/
theorem eval_error_iff {exhausted : Stop} (hexhausted : exhausted.isDepth = true) {n : Nat}
    {t : Task} {s : Stop} {m' : Machine} :
    (eval exhausted n t.expr t.frame).run t.machine = .error s m' ↔
      ∃ k t₁ s₁, Reaches exhausted n t k t₁ ∧ Stops exhausted k t₁ s₁ m' ∧
        s = s₁.inContext t₁.expr := by
  induction n generalizing t s with
  | zero =>
      constructor
      · rintro ⟨⟩
        exact ⟨0, t, exhausted, .refl 0 t, .deep t, (Stop.inContext_of_isDepth hexhausted _).symm⟩
      · rintro ⟨k, t₁, s₁, hreach, hstop, rfl⟩
        cases hreach
        cases hstop
        rw [Stop.inContext_of_isDepth hexhausted]
        rfl
  | succ n ih =>
      rw [eval, Evaluator.step_error_iff]
      constructor
      · rintro ⟨s₀, ⟨e, rfl, hraise⟩ | ⟨t', henter, hstop⟩, rfl⟩
        · exact ⟨n + 1, t, _, .refl _ t, .raise hraise, rfl⟩
        · obtain ⟨k, t₁, s₁, hreach, hstops, rfl⟩ := ih.mp hstop
          -- the inner task has noted itself already, so this call adds nothing
          exact ⟨k, t₁, s₁, .enter henter hreach, hstops, Stop.inContext_inContext _ _ _⟩
      · rintro ⟨k, t₁, s₁, hreach, hstops, rfl⟩
        cases hreach with
        | refl =>
            cases hstops with
            | raise hraise => exact ⟨_, .inl ⟨_, rfl, hraise⟩, rfl⟩
        | enter henter hreach =>
            have hstop := ih.mpr ⟨k, t₁, s₁, hreach, hstops, rfl⟩
            exact ⟨_, .inr ⟨_, henter, hstop⟩, (Stop.inContext_inContext _ _ _).symm⟩

end Lisp
