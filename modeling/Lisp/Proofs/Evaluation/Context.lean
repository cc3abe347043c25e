import Lisp.Proofs.Evaluation.Origin

/-! # The call that an error leaves an evaluation with

A type error names one call, the innermost around its cause: the one whose own step met the value
of the wrong type. All other errors are handed on as they were raised. -/

namespace Lisp

theorem Value.eq_of_first_error {v : Value} {e : Error} (h : v.first = .error e) :
    e = .notAList (.first v) := by
  cases v with
  | pair i first rest => cases h
  | _ =>
      cases h
      rfl

namespace Evaluator

/-- The step of the task itself meets a value of the wrong type: in applying a function or binding
its parameters, or in checking the target of a form that binds. -/
inductive Mistypes (ev : Evaluator) : Task → TypeFault → Machine → Prop
  | callable {i head args f m v m₁ vs m₂} : specialForm? head = none →
      (ev head f).run m = .ok v m₁ → (ev.operands f args).run m₁ = .ok vs m₂ → v.symbol? = none →
      (∀ j params body frame, v ≠ .closure j params body frame) →
      Mistypes ev ⟨.pair i head args, f, m⟩ (.callable v) m₂
  | primitive {i head args f m s m₁ vs m₂ op fault} : specialForm? head = none →
      (ev head f).run m = .ok (.symbol s) m₁ → (ev.operands f args).run m₁ = .ok vs m₂ →
      s.builtin? = some (.primitive op) → op.apply vs = .error (.type fault none) →
      Mistypes ev ⟨.pair i head args, f, m⟩ fault m₂
  | parameters {i head args f m j params body frame m₁ vs m₂ fault} : specialForm? head = none →
      (ev head f).run m = .ok (.closure j params body frame) m₁ →
      (ev.operands f args).run m₁ = .ok vs m₂ →
      ParameterMatch.ofParams params vs = .error (.type fault none) →
      Mistypes ev ⟨.pair i head args, f, m⟩ fault
        { m₂ with events := m₂.events.push (.applyClosure params vs.length) }
  | target {i head args f m form v} : specialForm? head = some form →
      form = .set ∨ form = .defun → args.first = .ok v → v.symbol? = none →
      Mistypes ev ⟨.pair i head args, f, m⟩ (.target form v) m

variable {ev : Evaluator} {t : Task} {fault : TypeFault} {m' : Machine}

theorem Mistypes.exists_pair (h : ev.Mistypes t fault m') :
    ∃ i head args, t.expr = .pair i head args := by
  cases h <;> exact ⟨_, _, _, rfl⟩

theorem Mistypes.raises (h : ev.Mistypes t fault m') : ev.Raises t (.type fault none) m' := by
  cases h with
  | @callable _ _ _ _ _ v _ _ _ hform hfun hargs hsymbol hclosure =>
      cases v with
      | symbol s => cases hsymbol
      | closure j params body frame => exact absurd rfl (hclosure j params body frame)
      | number n => exact .apply hform hfun hargs .number
      | pair j a d => exact .apply hform hfun hargs .pair
  | primitive hform hfun hargs hop he => exact .apply hform hfun hargs (.primitive hop he)
  | parameters hform hfun hargs he => exact .apply hform hfun hargs (.parameters he)
  | target hform hbinds hv hsymbol => exact .malformed hform (.target hbinds hv hsymbol)

/-- The type errors of a step are those of applying and of binding. -/
theorem Raises.mistypes {context : Option Value} (h : ev.Raises t (.type fault context) m') :
    context = none ∧ ev.Mistypes t fault m' := by
  have hplain : context = none := by
    rcases h.plain with h | h
    · cases context with
      | none => rfl
      | some call => cases h
    · cases h
  subst context
  refine ⟨rfl, ?_⟩
  have hfirst : ∀ v : Value, v.first ≠ .error (.type fault none) := by
    intro v hv
    cases Value.eq_of_first_error hv
  generalize herr : Error.type fault none = e at h
  cases h with
  | unbound hnil htruth hlookup => cases herr
  | operands hform hfun hpass htail hnil => cases herr
  | refused hform ha hv hrefused => cases herr
  | apply hform hfun hargs hfault =>
      cases hfault with
      | number =>
          cases herr
          exact .callable hform hfun hargs rfl (by rintro _ _ _ _ ⟨⟩)
      | pair =>
          cases herr
          exact .callable hform hfun hargs rfl (by rintro _ _ _ _ ⟨⟩)
      | operator hop => cases herr
      | primitive hop he =>
          subst herr
          exact .primitive hform hfun hargs hop he
      | parameters he =>
          subst herr
          exact .parameters hform hfun hargs he
  | malformed hform hshape =>
      cases hshape with
      | target hbinds hv hsymbol =>
          cases herr
          exact .target hform hbinds hv hsymbol
      | first hform' he => exact absurd (herr ▸ he) (hfirst _)
      | second hbinds hx hd he => exact absurd (herr ▸ he) (hfirst _)
      | third hx hd hp hd' he => exact absurd (herr ▸ he) (hfirst _)
  | clause hform hpass hfault =>
      cases hfault with
      | tail he hnil => exact absurd (herr ▸ he) (hfirst _)
      | test he => exact absurd (herr ▸ he) (hfirst _)
      | chosen ht htest hv hd he => exact absurd (herr ▸ he) (hfirst _)

end Evaluator

/-! ## On the way out -/

theorem Error.inContext_of_ne_type {e : Error} (h : ∀ fault context, e ≠ type fault context)
    (call : Value) : e.inContext call = e := by
  cases e with
  | type fault context => exact absurd rfl (h fault context)
  | _ => rfl

theorem Error.ne_type_of_inContext {e : Error} {call : Value}
    (h : ∀ fault context, e.inContext call ≠ type fault context) :
    ∀ fault context, e ≠ type fault context := by
  rintro fault context rfl
  cases context with
  | none => exact h fault (some call) (inContext_type_none call fault)
  | some inner => exact h fault (some inner) (inContext_type_some call inner fault)

section Stops

variable {exhausted : Stop} {k : Nat} {t : Task} {s : Stop} {m' : Machine}

/-- A type error leaves the task that raised it with the expression of that task. -/
theorem Stops.mistypes (hexhausted : exhausted.isDepth = true) (h : Stops exhausted k t s m')
    {fault : TypeFault} {context : Option Value}
    (hs : s.inContext t.expr = .error (.type fault context)) :
    ∃ n, k = n + 1 ∧ (eval exhausted n).Mistypes t fault m' ∧ context = some t.expr := by
  cases h with
  | deep =>
      rw [Stop.inContext_of_isDepth hexhausted] at hs
      rw [hs] at hexhausted
      cases hexhausted
  | @raise n _ e _ hraise =>
      cases e with
      | type fault' context' =>
          obtain ⟨rfl, hmistypes⟩ := hraise.mistypes
          rw [Stop.inContext, Error.inContext_type_none] at hs
          cases hs
          exact ⟨n, rfl, hmistypes, rfl⟩
      | _ => cases hs

theorem Stops.eq_of_ne_type (hexhausted : exhausted.isDepth = true) (h : Stops exhausted k t s m')
    {e : Error} (he : ∀ fault context, e ≠ .type fault context)
    (hs : s.inContext t.expr = .error e) : s = .error e := by
  cases h with
  | deep => rwa [Stop.inContext_of_isDepth hexhausted] at hs
  | @raise n _ e' _ hraise =>
      rw [Stop.inContext, Stop.error.injEq] at hs
      subst e
      rw [Error.inContext_of_ne_type (Error.ne_type_of_inContext he)]

end Stops

theorem Limits.isDepth_exhausted (limits : Limits) : limits.exhausted.isDepth = true := by
  unfold exhausted
  cases limits.eval <;> rfl

/-- The errors that leave an evaluation are those that a task inside it ends with. A type error
names the task's own expression, which is a call, in words that say so once; every other error is
the one that was raised. -/
theorem evaluate_error_origin (limits : Limits) (fuel : Nat) (e : Value) (f : FrameId)
    (m : Machine) :
    (∀ fault context m',
      (evaluate limits fuel e f).run m = .error (.error (.type fault context)) m' →
      ∃ levels t, Reaches limits.exhausted (limits.levels fuel) ⟨e, f, m⟩ (levels + 1) t ∧
        (eval limits.exhausted levels).Mistypes t fault m' ∧
        (∃ i head args, t.expr = .pair i head args) ∧ context = some t.expr ∧
        Error.typeText fault context =
          fault.message ++ "\n  Context: while evaluating: " ++ t.expr.print ∧
        Text.occurrences "while evaluating:".toList (Error.typeText fault context).toList = 1) ∧
    (∀ levels t fault m',
      Reaches limits.exhausted (limits.levels fuel) ⟨e, f, m⟩ (levels + 1) t →
      (eval limits.exhausted levels).Mistypes t fault m' →
      (evaluate limits fuel e f).run m = .error (.error (.type fault (some t.expr))) m') ∧
    (∀ err m', (∀ fault context, err ≠ .type fault context) →
      ((evaluate limits fuel e f).run m = .error (.error err) m' ↔
        ∃ levels t, Reaches limits.exhausted (limits.levels fuel) ⟨e, f, m⟩ levels t ∧
          Stops limits.exhausted levels t (.error err) m')) := by
  have horigin : ∀ s m', (evaluate limits fuel e f).run m = .error s m' ↔
      ∃ k t s₁, Reaches limits.exhausted (limits.levels fuel) ⟨e, f, m⟩ k t ∧
        Stops limits.exhausted k t s₁ m' ∧ s = s₁.inContext t.expr := by
    intro s m'
    rw [evaluate_eq_eval]
    exact eval_error_iff (t := ⟨e, f, m⟩) limits.isDepth_exhausted
  have hdepth := limits.isDepth_exhausted
  refine ⟨?_, ?_, ?_⟩
  · intro fault context m' h
    obtain ⟨k, t, s, hreach, hstops, hs⟩ := (horigin _ m').mp h
    obtain ⟨levels, rfl, hmistypes, rfl⟩ := hstops.mistypes hdepth hs.symm
    refine ⟨levels, t, hreach, hmistypes, hmistypes.exists_pair, rfl, ?_, ?_⟩
    · rw [Error.typeText_some]
    · exact Error.occurrences_contextMark_some fault t.expr
  · intro levels t fault m' hreach hmistypes
    refine (horigin _ m').mpr ⟨levels + 1, t, _, hreach, .raise hmistypes.raises, ?_⟩
    rw [Stop.inContext, Error.inContext_type_none]
  · intro err m' hne
    rw [horigin]
    constructor
    · rintro ⟨k, t, s, hreach, hstops, hs⟩
      obtain rfl := hstops.eq_of_ne_type hdepth hne hs.symm
      exact ⟨k, t, hreach, hstops⟩
    · rintro ⟨k, t, hreach, hstops⟩
      refine ⟨k, t, _, hreach, hstops, ?_⟩
      rw [Stop.inContext, Error.inContext_of_ne_type hne]

/-- A function whose body calls a number, called for the value of an assignment: the error names
the call in the body, not the calls around it. -/
theorem evaluate_error_origin_in_body :
    let m : Machine := ⟨⟨#[.empty none]⟩, 5, .empty none, #[]⟩
    let body : Value := .pair 0 (.number 5) .nil
    let call : Value := .pair 2 (.closure 1 .nil body 0) .nil
    let assignment : Value :=
      .pair 4 (.symbol (Builtin.symbol (.special .set))) (.pair 3 .truth (.pair 2 call .nil))
    ∃ m', (evaluate .bounded 0 assignment 0).run m =
        .error (.error (.type (.callable (.number 5)) (some body))) m' ∧
      Text.occurrences "while evaluating:".toList
        (Error.typeText (.callable (.number 5)) (some body)).toList = 1 := by
  intro m body call assignment
  have hspec := evaluate_error_origin .bounded 0 assignment 0 m
  have hset : Evaluator.specialForm? (.symbol (Builtin.symbol (.special .set))) = some .set := by
    decide +kernel
  have hrun := hspec.2.1 509 ⟨body, 1, _⟩ (.callable (.number 5)) _
    (.enter (.set hset rfl rfl rfl) (.enter (.body rfl rfl rfl rfl) (.refl _ _)))
    (.callable rfl rfl rfl rfl (by rintro _ _ _ _ ⟨⟩))
  obtain ⟨-, -, -, -, -, -, -, honce⟩ := hspec.1 _ _ _ hrun
  exact ⟨_, hrun, honce⟩

end Lisp
