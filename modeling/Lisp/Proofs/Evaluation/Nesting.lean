import Lisp.Interpreter
import Lisp.Proofs.Evaluation.Closure
import Lisp.Proofs.Evaluation.Origin
import Lisp.Proofs.Reader.Depth
import Lisp.Proofs.Value.Shape

/-! # Nesting and the depth of evaluation

An evaluation goes deeper in two ways: into an element of the expression, which nests less deeply,
or into the body of a function, and that is reported. So an expression whose nesting is below the
limit cannot exceed it without the report of a call. Reading below a limit keeps the nesting below
it, whatever the constructs. -/

namespace Lisp

/-! ## Reports are only added -/

namespace Machine

/-- The reports of the first machine are the oldest of the second. -/
def ReportsMore (m m' : Machine) : Prop :=
  m.events.toList <+: m'.events.toList

instance : IsPreorder Machine ReportsMore where
  refl m := List.prefix_refl m.events.toList
  trans _ _ _ h₁ h₂ := List.IsPrefix.trans h₁ h₂

/-- Among the reports of the second machine that the first does not have is one of a call. -/
def CalledSince (m m' : Machine) : Prop :=
  ∃ new params count, m'.events.toList = m.events.toList ++ new ∧
    .applyClosure params count ∈ new

variable {m m₁ m₂ : Machine}

theorem CalledSince.later (h : m.CalledSince m₁) (hmore : m₁.ReportsMore m₂) :
    m.CalledSince m₂ := by
  obtain ⟨new, params, count, hnew, hcall⟩ := h
  obtain ⟨later, hlater⟩ := hmore
  refine ⟨new ++ later, params, count, ?_, List.mem_append_left later hcall⟩
  rw [← hlater, hnew, List.append_assoc]

theorem CalledSince.earlier (h : m₁.CalledSince m₂) (hmore : m.ReportsMore m₁) :
    m.CalledSince m₂ := by
  obtain ⟨old, hold⟩ := hmore
  obtain ⟨new, params, count, hnew, hcall⟩ := h
  refine ⟨old ++ new, params, count, ?_, List.mem_append_right old hcall⟩
  rw [hnew, ← hold, List.append_assoc]

theorem CalledSince.reportsMore (h : m.CalledSince m₁) : m.ReportsMore m₁ := by
  obtain ⟨new, -, -, hnew, -⟩ := h
  exact ⟨new, hnew.symm⟩

end Machine

theorem Run.closed_reportsMore : Closed (Respects Machine.ReportsMore) where
  pure := respects_pure
  fail _ := respects_fail _
  fresh _ _ := List.prefix_refl _
  lookup := respects_lookup
  define _ _ _ _ := List.prefix_refl _
  push _ _ := List.prefix_refl _
  isRoot := respects_isRoot
  emit e m := by
    show m.events.toList <+: (m.events.push e).toList
    rw [Array.toList_push]
    exact List.prefix_append _ _
  write text m := by
    rw [after_write]
    exact List.prefix_refl _
  bind hc hk := hc.bind hk
  inContext call _ hc := hc.inContext call

theorem eval_reportsMore (exhausted : Stop) (levels : Nat) (e : Value) (f : FrameId) :
    Run.Respects Machine.ReportsMore (eval exhausted levels e f) :=
  Run.closed_reportsMore.eval (fun m => List.prefix_refl m.events.toList) levels e f

/-! ## The nesting of expressions -/

/-- How deep lists stand inside each other, as for data; a function has no elements. -/
def Value.nesting : Value → Nat
  | pair _ first rest => max (first.nesting + 1) rest.nesting
  | number _ | symbol _ | closure .. => 0

theorem Datum.Describes.nesting_eq {d : Datum} {v : Value} (h : d.Describes v) :
    v.nesting = d.nesting := by
  induction h with
  | number n => rfl
  | symbol s => rfl
  | pair serial _ _ ihfirst ihrest => rw [Value.nesting, Datum.nesting, ihfirst, ihrest]

theorem Value.nesting_lt_of_element {v a : Value} (h : a ∈ v.elements) :
    a.nesting < v.nesting := by
  induction v with
  | pair i first rest _ ih =>
      rw [nesting]
      rcases List.mem_cons.mp h with rfl | h
      · omega
      · have := ih h
        omega
  | number n => cases h
  | symbol s => cases h
  | closure i params body frame => cases h

namespace Evaluator

variable {ev : Evaluator} {f : FrameId} {args a : Value} {m m₁ : Machine}

theorem EntersOperand.mem_elements (h : ev.EntersOperand f args m a m₁) : a ∈ args.elements := by
  induction h with
  | here => exact List.mem_cons_self
  | later _ _ ih => exact List.mem_cons_of_mem _ ih

theorem EntersClause.nesting_lt (h : ev.EntersClause f args m a m₁) :
    a.nesting < args.nesting := by
  induction h with
  | @test i clause rest m t ht =>
      have hclause := Value.nesting_lt_of_element (Value.mem_elements_of_first ht)
      rw [Value.nesting]
      omega
  | @chosen i clause rest m t v m₁ d a ht htest hv hd ha =>
      have hclause := Value.nesting_lt_of_element
        (Value.mem_elements_of_rest hd (Value.mem_elements_of_first ha))
      rw [Value.nesting]
      omega
  | later ht htest hv _ ih =>
      rw [Value.nesting]
      omega

/-- Opening the frame of a call reports the call. -/
theorem calledSince_openFrame {params : Value} {frame g : FrameId} {vs : List Value}
    (h : (openFrame params frame vs).run m = .ok g m₁) : m.CalledSince m₁ := by
  refine ⟨[.applyClosure params vs.length], params, vs.length, ?_, List.mem_singleton_self _⟩
  rw [openFrame, Run.run_bind_of_ok (Run.run_emit _ m), Run.run_extend] at h
  split at h
  · cases h
    exact Array.toList_push
  · cases h

/-- A step goes into an expression that nests less deeply, or into the body of a function, which
it reports. -/
theorem Enters.nesting_lt_or_called (hev : ∀ e f, Run.Respects Machine.ReportsMore (ev e f))
    {t t₁ : Task} (h : ev.Enters t t₁) :
    t.machine.ReportsMore t₁.machine ∧
      (t₁.expr.nesting < t.expr.nesting ∨ t.machine.CalledSince t₁.machine) := by
  have hargs : ∀ i head args, ∀ a : Value, a.nesting < args.nesting →
      a.nesting < (Value.pair i head args).nesting := by
    intro i head args a ha
    rw [Value.nesting]
    omega
  cases h with
  | @head i head args f m hform =>
      refine ⟨refl_of _ _, .inl ?_⟩
      exact Value.nesting_lt_of_element (v := .pair i head args) List.mem_cons_self
  | operand hform hfun henter =>
      refine ⟨trans_of _ ((hev _ _).of_ok hfun) (henter.respects fun a => hev a _), .inl ?_⟩
      exact hargs _ _ _ _ (Value.nesting_lt_of_element henter.mem_elements)
  | set hform hx hd ha =>
      refine ⟨refl_of _ _, .inl (hargs _ _ _ _ ?_)⟩
      exact Value.nesting_lt_of_element
        (Value.mem_elements_of_rest hd (Value.mem_elements_of_first ha))
  | clause hform henter =>
      exact ⟨henter.respects fun a => hev a _, .inl (hargs _ _ _ _ henter.nesting_lt)⟩
  | print hform ha =>
      refine ⟨refl_of _ _, .inl (hargs _ _ _ _ ?_)⟩
      exact Value.nesting_lt_of_element (Value.mem_elements_of_first ha)
  | body hform hfun hoperands hopen =>
      have hbefore := trans_of Machine.ReportsMore ((hev _ _).of_ok hfun)
        ((operands_respects fun a _ => hev a _).of_ok hoperands)
      have hcalled := (calledSince_openFrame hopen).earlier hbefore
      exact ⟨hcalled.reportsMore, .inr hcalled⟩

end Evaluator

/-- However deep an evaluation has gone without a call, the expression nests less by as much. -/
theorem Reaches.nesting_le_or_called {exhausted : Stop} {n k : Nat} {t t₁ : Task}
    (h : Reaches exhausted n t k t₁) :
    t.machine.ReportsMore t₁.machine ∧
      (t₁.expr.nesting + n ≤ t.expr.nesting + k ∨ t.machine.CalledSince t₁.machine) := by
  induction h with
  | refl n t => exact ⟨refl_of _ _, .inl (Nat.le_refl _)⟩
  | @enter n k t t₁ t₂ henter _ ih =>
      obtain ⟨hmore, hstep⟩ := henter.nesting_lt_or_called (eval_reportsMore exhausted n)
      refine ⟨trans_of _ hmore ih.1, ?_⟩
      -- one level was spent on this step, and the nesting has gone down by at least one
      rcases hstep with hlt | hcalled
      · rcases ih.2 with hle | hcalled
        · left
          omega
        · exact .inr (hcalled.earlier hmore)
      · exact .inr (hcalled.later ih.1)

/-- An expression that nests less deeply than there are levels uses them up only by a call. -/
theorem calledSince_of_isDepth {exhausted : Stop} (hexhausted : exhausted.isDepth = true) {n : Nat}
    {e : Value} {f : FrameId} {m m' : Machine} {s : Stop} (hs : s.isDepth = true)
    (hnesting : e.nesting < n) (h : (eval exhausted n e f).run m = .error s m') :
    m.CalledSince m' := by
  obtain ⟨k, t, s₁, hreach, hstops, rfl⟩ := (eval_error_iff (t := ⟨e, f, m⟩) hexhausted).mp h
  cases hstops with
  | raise hraise =>
      rw [Stop.inContext, Stop.isDepth_inContext] at hs
      rcases hraise.plain with hplain | rfl
      · rw [Stop.isDepth_of_isPlain hplain] at hs
        cases hs
      · cases hs
  | deep =>
      rcases hreach.nesting_le_or_called.2 with hle | hcalled
      · simp only at hle
        omega
      · exact hcalled

theorem Reader.nesting_lt_of_mem_outcomes {r : Reader} {p : Nat} (hr : r.limit = some p)
    {d : Datum} (h : .ok d ∈ r.outcomes) : d.nesting < p := by
  fun_induction outcomes r with
  | case1 r hread => cases h
  | case2 r result r' hread ih =>
      rcases List.mem_cons.mp h with rfl | h
      · have hdone := feedAll_of_read?_ok hread
        rw [hr] at hdone
        have hstart : ReaderState.start.Fits p := trivial
        exact ReaderState.nesting_lt_of_feedAll hstart hdone
      · obtain ⟨r'', hread', -, hlimit, -⟩ := r.read?_eq (located_ne_nil hread)
        obtain ⟨-, rfl⟩ := Prod.mk.inj (Option.some.inj (hread.symm.trans hread'))
        exact ih (hlimit.trans hr) h

/-- What was read below a limit and is evaluated below one that is no lower goes too deep only by a
call. -/
theorem calledSince_of_tooDeep {p m : Nat} (hpm : p ≤ m) {source : String} {d : Datum}
    (hread : .ok d ∈ (Reader.ofSource source (some p)).outcomes) {v : Value} (hv : d.Describes v)
    {parse : Option Nat} {fuel : Nat} {f : FrameId} {start after : Machine} {k : Nat}
    (h : (evaluate ⟨parse, some m⟩ fuel v f).run start = .error (.error (.tooDeep k)) after) :
    start.CalledSince after := by
  have hnesting : v.nesting < m := by
    rw [hv.nesting_eq]
    exact Nat.lt_of_lt_of_le (Reader.nesting_lt_of_mem_outcomes rfl hread) hpm
  exact calledSince_of_isDepth rfl rfl hnesting h

/-- The two limits agree. What was read below a limit, evaluated below one that is no lower in
whatever state, fails for want of depth only after the call of a function, which is reported. So
under the limits that bound every input, nesting alone exhausts no evaluation. -/
theorem depth_error_needs_call (source : String) :
    (∀ p m, p ≤ m → ∀ d, .ok d ∈ (Reader.ofSource source (some p)).outcomes →
      ∀ v, d.Describes v → ∀ parse fuel f start after k,
        (evaluate ⟨parse, some m⟩ fuel v f).run start = .error (.error (.tooDeep k)) after →
        start.CalledSince after) ∧
    (∀ d, .ok d ∈ (Reader.ofSource source Limits.bounded.parse).outcomes →
      ∀ fuel f start after k,
        (Interpreter.evaluateIn ⟨.bounded, fuel⟩ f d).run start =
          .error (.error (.tooDeep k)) after →
        start.CalledSince after) := by
  constructor
  · intro p m hpm d hread v hv parse fuel f start after k h
    exact calledSince_of_tooDeep hpm hread hv h
  · intro d hread fuel f start after k h
    rw [Interpreter.evaluateIn, Run.run_bind_of_ok (Run.run_fresh _ start)] at h
    have hle : 256 ≤ 512 := by decide
    -- the objects of the expression are made without a report
    have hcalled := calledSince_of_tooDeep hle hread (Value.describes_ofDatum d start.serial) h
    exact hcalled

/-- A function that calls itself uses up three levels, although the call does not nest. -/
theorem depth_error_needs_call_loop :
    let name : Symbol := Builtin.symbol (.primitive .car)
    let d : Datum := .cons (.symbol name) .nil
    let call : Value := .pair 0 (.symbol name) .nil
    let start : Machine :=
      ⟨⟨#[(Frame.empty none).define name (.closure 1 .nil call 0)]⟩, 2, .empty none, #[]⟩
    .ok d ∈ (Reader.ofSource "(car)" (some 2)).outcomes ∧
    ∃ after, (evaluate ⟨none, some 3⟩ 0 call 0).run start = .error (.error (.tooDeep 3)) after ∧
      start.CalledSince after := by
  intro name d call start
  have hread : .ok d ∈ (Reader.ofSource "(car)" (some 2)).outcomes := by decide +kernel
  have hstop : (match (evaluate ⟨none, some 3⟩ 0 call 0).run start with
      | .error s _ => some s
      | .ok _ _ => none) = some (.error (.tooDeep 3)) := by decide +kernel
  refine ⟨hread, ?_⟩
  split at hstop
  · rename_i s after hrun
    cases hstop
    refine ⟨after, hrun, ?_⟩
    exact (depth_error_needs_call "(car)").1 2 3 (by decide) d hread call
      (.pair 0 (.symbol name) (.symbol .nil)) none 0 0 start after 3 hrun
  · cases hstop

end Lisp
