import Lisp.Proofs.Evaluation.Context

/-! # The choice of a clause

A choice evaluates tests up to the first that is true, and then the expression beside that test.
Nothing else of its clauses is looked at, so nothing else has an influence: neither what stands
beside the tests that failed, nor what follows the chosen expression, nor what follows the chosen
clause, well formed or not. A type error names the innermost call around its cause, and so it does
not quote the choice either. -/

namespace Lisp

/-- Clauses of which the first ones have `tests` and the next one has `test` and `body`. All else in
them is left open: what stands beside the tests of the first ones, what follows `body`, and what
follows the clause. -/
inductive Value.Offers (test body : Value) : (tests : List Value) → (clauses : Value) → Prop
  | chosen (i j k : Serial) (more rest : Value) :
      Offers test body [] (.pair i (.pair j test (.pair k body more)) rest)
  | passed (i j : Serial) (t beside : Value) {tests : List Value} {clauses : Value} :
      Offers test body tests clauses →
      Offers test body (t :: tests) (.pair i (.pair j t beside) clauses)

def Value.condHead : Value := .symbol (Builtin.symbol (.special .cond))

theorem Value.isTruthy_of_ne_nil {v : Value} (h : v ≠ .nil) : v.isTruthy = true := by
  cases v with
  | symbol s =>
      have hs : s ≠ .nil := fun hs => h (congrArg Value.symbol hs)
      simpa [isTruthy, isNil, Symbol.isNil] using hs
  | _ => rfl

theorem Run.run_bind_ok_iff {α β : Type} {c : Run α} {k : α → Run β} {m m' : Machine} {b : β} :
    (c >>= k).run m = .ok b m' ↔ ∃ a m₁, c.run m = .ok a m₁ ∧ (k a).run m₁ = .ok b m' := by
  cases hc : c.run m with
  | ok a m₁ => simp [run_bind_of_ok hc]
  | error s m₁ => simp [run_bind_of_error hc]

/-- A computation whose errors have their calls noted is not changed by noting another. -/
theorem Run.run_inContext_of_noted {α : Type} {c : Run α} {m : Machine} {call : Value}
    (h : ∀ s m', c.run m = .error s m' → s.inContext call = s) :
    (inContext call c).run m = c.run m := by
  cases hc : c.run m with
  | ok a m' =>
      rw [inContext, EStateM.run_adaptExcept, hc]
  | error s m' => exact run_inContext_error_iff.mpr ⟨s, hc, (h s m' hc).symm⟩

/-- An error that leaves an evaluation has its call noted, if it is to have one. -/
theorem eval_error_noted {exhausted : Stop} (hexhausted : exhausted.isDepth = true) {n : Nat}
    {e call : Value} {f : FrameId} {m m' : Machine} {s : Stop}
    (h : (eval exhausted n e f).run m = .error s m') : s.inContext call = s := by
  obtain ⟨k, t, s₁, -, -, rfl⟩ := (eval_error_iff (t := ⟨e, f, m⟩) hexhausted).mp h
  exact Stop.inContext_inContext call t.expr s₁

namespace Evaluator

variable {ev : Evaluator} {f : FrameId} {tests vs : List Value} {test body v clauses : Value}
  {m m₁ m₂ : Machine}

theorem step_cond (i : Serial) (clauses : Value) :
    ev.step (.pair i .condHead clauses) f =
      Run.inContext (.pair i .condHead clauses) (ev.cond f clauses) := by
  have hform : specialForm? .condHead = some .cond := by decide +kernel
  simp only [step, call, hform, special]

/-- The choice gets to the expression beside the first test that is true. -/
theorem cond_of_offers (hclauses : Value.Offers test body tests clauses)
    (hvs : (tests.mapM fun t => ev t f).run m = .ok vs m₁) (hnil : ∀ w ∈ vs, w = .nil)
    (htest : (ev test f).run m₁ = .ok v m₂) (hv : v ≠ .nil) :
    (ev.cond f clauses).run m = (ev body f).run m₂ := by
  induction hclauses generalizing m vs with
  | chosen i j k more rest =>
      cases hvs
      have ha : (Value.pair j test (.pair k body more)).rest = .ok (.pair k body more) := rfl
      rw [cond_of_test rfl htest (Value.isTruthy_of_ne_nil hv) ha]
      rfl
  | passed i j t beside _ ih =>
      rw [List.mapM_cons, Run.run_bind_ok_iff] at hvs
      obtain ⟨w, m', ht, hvs⟩ := hvs
      obtain ⟨ws, m'', hws, hvs⟩ := Run.run_bind_ok_iff.mp hvs
      cases hvs
      have hw : w = .nil := hnil w List.mem_cons_self
      subst hw
      rw [cond_of_test_nil rfl ht rfl]
      exact ih hws fun u hu => hnil u (List.mem_cons_of_mem _ hu)

end Evaluator

/-- If the tests of the first clauses give `NIL` one after the other, and the test of the next one
then gives something else, the outcome is that of the expression of that clause, evaluated from
there in the same frame one level deeper. So all choices that agree in these tests and this
expression have the same outcome, and the same machine after it. -/
theorem cond_outcome_of_chosen_clause (limits : Limits) (levels : Nat) {f : FrameId}
    {tests vs : List Value} {test body v : Value} {m m₁ m₂ : Machine}
    (hvs : (tests.mapM fun t => eval limits.exhausted levels t f).run m = .ok vs m₁)
    (hnil : ∀ w ∈ vs, w = .nil)
    (htest : (eval limits.exhausted levels test f).run m₁ = .ok v m₂) (hv : v ≠ .nil) :
    (∀ i clauses, Value.Offers test body tests clauses →
      (eval limits.exhausted (levels + 1) (.pair i .condHead clauses) f).run m =
        (eval limits.exhausted levels body f).run m₂) ∧
    (∀ i i' clauses clauses', Value.Offers test body tests clauses →
      Value.Offers test body tests clauses' →
      (eval limits.exhausted (levels + 1) (.pair i .condHead clauses) f).run m =
        (eval limits.exhausted (levels + 1) (.pair i' .condHead clauses') f).run m) ∧
    (∀ fuel, limits.levels fuel = levels + 1 →
      ∀ i clauses, Value.Offers test body tests clauses →
      (evaluate limits fuel (.pair i .condHead clauses) f).run m =
        (eval limits.exhausted levels body f).run m₂) := by
  have houtcome : ∀ i clauses, Value.Offers test body tests clauses →
      (eval limits.exhausted (levels + 1) (.pair i .condHead clauses) f).run m =
        (eval limits.exhausted levels body f).run m₂ := by
    intro i clauses hclauses
    have hcond := Evaluator.cond_of_offers hclauses hvs hnil htest hv
    rw [eval, Evaluator.step_cond, Run.run_inContext_of_noted, hcond]
    intro s m' herror
    rw [hcond] at herror
    exact eval_error_noted limits.isDepth_exhausted herror
  refine ⟨houtcome, fun i i' clauses clauses' hclauses hclauses' => ?_, fun fuel hfuel => ?_⟩
  · rw [houtcome i clauses hclauses, houtcome i' clauses' hclauses']
  · rw [evaluate_eq_eval, hfuel]
    exact houtcome

/-- A test that assigns `NIL`, and then one that is true beside a call of a number. Once with all
clauses well formed and once with the number `9` in all places that do not matter, the error is that
of the call, and the assignment stays. -/
theorem cond_outcome_of_chosen_clause_error :
    let m : Machine := ⟨⟨#[.empty none]⟩, 20, .empty none, #[]⟩
    let assignment : Value :=
      .pair 0 (.symbol (Builtin.symbol (.special .set))) (.pair 1 .truth (.pair 2 .nil .nil))
    let body : Value := .pair 3 (.number 5) .nil
    let clauses (beside more rest : Value) : Value :=
      .pair 4 (.pair 5 assignment beside) (.pair 6 (.pair 7 (.number 1) (.pair 8 body more)) rest)
    let wellFormed : Value := .pair 9 .condHead (clauses (.pair 10 .nil .nil) .nil .nil)
    let malformed : Value := .pair 11 .condHead (clauses (.number 9) (.number 9) (.number 9))
    let assigned : Machine :=
      { m with heap := m.heap.define 0 .truth .nil, events := #[.setGlobal .truth .nil] }
    (evaluate .bounded 0 wellFormed 0).run m =
        .error (.error (.type (.callable (.number 5)) (some body))) assigned ∧
      (evaluate .bounded 0 malformed 0).run m = (evaluate .bounded 0 wellFormed 0).run m := by
  intro m assignment body clauses wellFormed malformed assigned
  let ev : Evaluator := eval Limits.bounded.exhausted 511
  have htests : ([assignment].mapM fun t => ev t 0).run m = .ok [.nil] assigned := rfl
  have htest : (ev (.number 1) 0).run assigned = .ok (.number 1) assigned := rfl
  have hcall : (ev body 0).run assigned =
      .error (.error (.type (.callable (.number 5)) (some body))) assigned := by
    let inner : Evaluator := eval Limits.bounded.exhausted 510
    have hraise : (inner.call 0 (.number 5) .nil).run assigned =
        .error (.error (.type (.callable (.number 5)) none)) assigned := rfl
    refine Run.run_inContext_error_iff.mpr ⟨_, hraise, ?_⟩
    rw [Stop.inContext, Error.inContext_type_none]
  have hoffers : ∀ beside more rest,
      Value.Offers (.number 1) body [assignment] (clauses beside more rest) :=
    fun beside more rest => .passed _ _ _ _ (.chosen _ _ _ more rest)
  obtain ⟨-, -, htop⟩ :=
    cond_outcome_of_chosen_clause .bounded 511 htests (by simp) htest (by decide)
  have hwell := htop 0 rfl 9 _ (hoffers (.pair 10 .nil .nil) .nil .nil)
  have hmal := htop 0 rfl 11 _ (hoffers (.number 9) (.number 9) (.number 9))
  exact ⟨hwell.trans hcall, hmal.trans hwell.symm⟩

end Lisp
