import Lisp.Proofs.Evaluation.Depth
import Lisp.Proofs.Reader.Lines

/-! # Evaluating text after text

All expressions of a text are evaluated one after the other, as they are read. Reading composes over
line ends, and so does evaluation: a text behind another is evaluated on the machine that the first
has left, and not at all if the first has failed. -/

namespace Lisp

/-! ## Results without excerpts -/

/-- The stop without the excerpt that a report of reading shows. -/
def Stop.withoutExcerpt : Stop → Stop
  | .error (.unreadable e) => .error (.unreadable e.withoutContext)
  | stop => stop

def Run.withoutExcerpt {α : Type} : EStateM.Result Stop Machine α → EStateM.Result Stop Machine α
  | .ok a m => .ok a m
  | .error stop m => .error stop.withoutExcerpt m

theorem Stop.withoutExcerpt_eq_outOfFuel {stop : Stop} (h : stop.withoutExcerpt = .outOfFuel) :
    stop = .outOfFuel := by
  unfold withoutExcerpt at h
  split at h
  · cases h
  · exact h

theorem Stop.withoutExcerpt_eq_unreadable {stop : Stop} {e : ReadError}
    (h : stop.withoutExcerpt = .error (.unreadable e)) :
    ∃ e', stop = .error (.unreadable e') ∧ e'.withoutContext = e := by
  unfold withoutExcerpt at h
  split at h
  · rename_i e'
    cases h
    exact ⟨e', rfl, rfl⟩
  · rename_i hne
    exact absurd h (hne e)

/-- Of results that differ only in excerpts both lack fuel or neither does. -/
theorem Run.ne_outOfFuel_of_withoutExcerpt {α : Type} {r r' : EStateM.Result Stop Machine α}
    (heq : Run.withoutExcerpt r' = Run.withoutExcerpt r) (hr : ∀ m', r ≠ .error .outOfFuel m')
    (m' : Machine) : r' ≠ .error .outOfFuel m' := by
  intro hout
  rw [hout] at heq
  cases r with
  | ok v m => cases heq
  | error stop m =>
      obtain ⟨hstop, rfl⟩ := EStateM.Result.error.inj heq
      rw [Stop.withoutExcerpt_eq_outOfFuel hstop.symm] at hr
      exact hr m' rfl

/-- A run that gives a value gives it on the machine that it leaves. -/
theorem Run.run_eq_ok_of_run' {α : Type} {c : Run α} {m : Machine} {a : α} (h : c.run' m = some a) :
    c.run m = .ok a (c.after m) := by
  delta EStateM.run' at h
  cases hrun : c.run m with
  | error stop m₁ =>
      rw [hrun] at h
      cases h
  | ok a' m₁ =>
      rw [hrun] at h
      cases h
      rw [Run.after_of_ok hrun]

namespace Interpreter

/-! ## One outcome after the other -/

theorem evalOutcomes_append (i : Interpreter) (last : Value)
    (xs ys : List (Except ReadError Datum)) :
    i.evalOutcomes last (xs ++ ys) = i.evalOutcomes last xs >>= fun v => i.evalOutcomes v ys := by
  induction xs generalizing last with
  | nil => simp [evalOutcomes]
  | cons x xs ih => simp [evalOutcomes, ih]

/-- The value to begin with matters only if there is nothing to evaluate. -/
theorem evalOutcomes_of_ne_nil (i : Interpreter) (last last' : Value)
    {xs : List (Except ReadError Datum)} (h : xs ≠ []) :
    i.evalOutcomes last xs = i.evalOutcomes last' xs := by
  cases xs with
  | nil => exact absurd rfl h
  | cons x xs => rfl

/-- The excerpts of errors do not matter to evaluation. -/
theorem withoutExcerpt_evalOutcomes (i : Interpreter) (last : Value)
    {xs ys : List (Except ReadError Datum)}
    (h : xs.map (Except.mapError ReadError.withoutContext) =
      ys.map (Except.mapError ReadError.withoutContext)) (m : Machine) :
    Run.withoutExcerpt ((i.evalOutcomes last xs).run m) =
      Run.withoutExcerpt ((i.evalOutcomes last ys).run m) := by
  induction xs generalizing last ys m with
  | nil =>
      have hys : ys = [] := by simpa using h.symm
      rw [hys]
  | cons x xs ih =>
      cases ys with
      | nil => simp at h
      | cons y ys =>
          obtain ⟨hxy, hrest⟩ := List.cons.inj h
          cases x with
          | error e =>
              cases y with
              | error e' =>
                  have he : e.withoutContext = e'.withoutContext := Except.error.inj hxy
                  simp [evalOutcomes, Run.ofRead, Run.withoutExcerpt, Stop.withoutExcerpt, he]
              | ok d => cases hxy
          | ok d =>
              cases y with
              | error e => cases hxy
              | ok d' =>
                  cases hxy
                  cases hrun : (i.evaluate d).run m with
                  | ok v m₁ => simpa [evalOutcomes, Run.ofRead, hrun] using ih v hrest m₁
                  | error stop m₁ => simp [evalOutcomes, Run.ofRead, hrun]

/-- Where there are only data, each is evaluated in turn. -/
theorem evalOutcomes_map_ok (i : Interpreter) (last : Value) (ds : List Datum) :
    i.evalOutcomes last (ds.map .ok) = do
      let vs ← ds.mapM i.evaluate
      return vs.getLastD last := by
  induction ds generalizing last with
  | nil => simp [evalOutcomes]
  | cons d ds ih => simp [evalOutcomes, Run.ofRead, ih, List.getLast?_cons]

/-! ## More fuel -/

section Fuel

variable {parse : Option Nat} {n n' : Nat}

theorem evaluate_cutsOff (h : n ≤ n') (d : Datum) :
    Run.CutsOff .outOfFuel (evaluate ⟨⟨parse, none⟩, n⟩ d) (evaluate ⟨⟨parse, none⟩, n'⟩ d) :=
  (Run.shallow_fresh _).cutsOff_bind fun e => eval_cutsOff rfl .outOfFuel h e global

theorem shallow_ofRead (outcome : Except ReadError Datum) : Run.Shallow (Run.ofRead outcome) := by
  cases outcome with
  | ok d => exact Run.shallow_pure d
  | error e =>
      intro m t m' h
      cases h
      rfl

theorem evalOutcomes_cutsOff (h : n ≤ n') (last : Value) (xs : List (Except ReadError Datum)) :
    Run.CutsOff .outOfFuel (evalOutcomes ⟨⟨parse, none⟩, n⟩ last xs)
      (evalOutcomes ⟨⟨parse, none⟩, n'⟩ last xs) := by
  induction xs generalizing last with
  | nil => exact (Run.shallow_pure last).cutsOff
  | cons x xs ih =>
      exact (shallow_ofRead x).cutsOff_bind fun d => (evaluate_cutsOff h d).bind fun v => ih v

/-- Under a depth limit fuel does not matter. -/
theorem evalOutcomes_limited (parse : Option Nat) (k n n' : Nat) (last : Value)
    (xs : List (Except ReadError Datum)) :
    evalOutcomes ⟨⟨parse, some k⟩, n⟩ last xs = evalOutcomes ⟨⟨parse, some k⟩, n'⟩ last xs := by
  have hevaluate : evaluate ⟨⟨parse, some k⟩, n⟩ = evaluate ⟨⟨parse, some k⟩, n'⟩ := rfl
  induction xs generalizing last with
  | nil => rfl
  | cons x xs ih => simp only [evalOutcomes, hevaluate, ih]

/-- A result for which the fuel was enough is the result with more. -/
theorem evalOutcomes_of_le {limits : Limits} (h : n ≤ n') {last : Value}
    {xs : List (Except ReadError Datum)} {m : Machine} {r : EStateM.Result Stop Machine Value}
    (hrun : (evalOutcomes ⟨limits, n⟩ last xs).run m = r) (hr : ∀ m', r ≠ .error .outOfFuel m') :
    (evalOutcomes ⟨limits, n'⟩ last xs).run m = r := by
  obtain ⟨parse, limit⟩ := limits
  cases limit with
  | some k => rw [evalOutcomes_limited parse k n' n, hrun]
  | none =>
      rcases evalOutcomes_cutsOff h last xs m with ⟨heq, -⟩ | ⟨m', hstop⟩
      · rw [← heq, hrun]
      · exact absurd (hrun.symm.trans hstop) (hr m')

end Fuel

end Interpreter

/-! ## Whole texts -/

theorem Reader.outcomes_eq_nil_iff (r : Reader) : r.outcomes = [] ↔ r.read? = none := by
  rw [outcomes]
  split
  · rename_i h
    simp [h]
  · rename_i h
    simp [h]

theorem Reader.outcomes_of_readAll {r : Reader} {ds : List Datum} (h : r.readAll = .ok ds) :
    r.outcomes = ds.map .ok := by
  rw [readAll] at h
  rcases mapM_id_cases r.outcomes with ⟨as, hall, hout⟩ | ⟨e, hall, -⟩
  · cases h.symm.trans hall
    exact hout
  · cases h.symm.trans hall

/-- The outcomes of a text behind one that reads without an error follow those of the first. -/
theorem Reader.exists_outcomes_join {limit : Option Nat} {s : String} {ds : List Datum}
    (hs : (ofSource s limit).readAll = .ok ds) (t : String) :
    ∃ rest, (ofSource (s ++ "\n" ++ t) limit).outcomes = ds.map .ok ++ rest ∧
      rest.map (Except.mapError ReadError.withoutContext) = (ofSource t limit).verdicts := by
  have hdata : verdictsOf limit (TokenStream.tokensOf s.toList) = ds.map .ok :=
    readAll_eq_ok_iff.mp hs
  have hcomplete : ∀ v ∈ verdictsOf limit (TokenStream.tokensOf s.toList),
      isIncomplete v = false := by
    intro v hv
    rw [hdata] at hv
    obtain ⟨d, -, rfl⟩ := List.mem_map.mp hv
    rfl
  have hverdicts : (ofSource (s ++ "\n" ++ t) limit).verdicts =
      ds.map .ok ++ (ofSource t limit).verdicts := by
    have hjoin := TokenStream.tokensOf_append_newline s.toList t.toList
    calc (ofSource (s ++ "\n" ++ t) limit).verdicts
        = verdictsOf limit (TokenStream.tokensOf (s ++ "\n" ++ t).toList) := verdictsOn_eq limit _
      _ = verdictsOf limit (TokenStream.tokensOf s.toList ++ TokenStream.tokensOf t.toList) := by
          rw [← hjoin]
          simp
      _ = ds.map .ok ++ verdictsOf limit (TokenStream.tokensOf t.toList) := by
          rw [verdictsOf_append hcomplete, hdata]
      _ = ds.map .ok ++ (ofSource t limit).verdicts := by rw [← verdictsOn_eq, verdictsOn]
  obtain ⟨front, rest, hout, hfront, hrest⟩ := List.map_eq_append_iff.mp hverdicts
  exact ⟨rest, by rw [hout, eq_map_ok_of_withoutContext hfront], hrest⟩

namespace Interpreter

/-- A text behind one that reads without an error is evaluated after it, from the value and on the
machine of the first. -/
theorem evalAll_join (i : Interpreter) {s : String} {ds : List Datum}
    (hs : (Reader.ofSource s i.limits.parse).readAll = .ok ds) (t : String) :
    ∃ rest, rest.map (Except.mapError ReadError.withoutContext) =
        (Reader.ofSource t i.limits.parse).verdicts ∧
      i.evalAll (s ++ "\n" ++ t) = i.evalAll s >>= fun v => i.evalOutcomes v rest := by
  obtain ⟨rest, hout, hrest⟩ := Reader.exists_outcomes_join hs t
  refine ⟨rest, hrest, ?_⟩
  rw [evalAll, evalAll, hout, evalOutcomes_append, Reader.outcomes_of_readAll hs]

/-- What the second text leads to on the machine that the first has left. -/
theorem run_evalAll_join (i : Interpreter) {s : String} {ds : List Datum}
    (hs : (Reader.ofSource s i.limits.parse).readAll = .ok ds) (t : String) (m : Machine) :
    (∀ stop m₁, (i.evalAll s).run m = .error stop m₁ →
      (i.evalAll (s ++ "\n" ++ t)).run m = .error stop m₁) ∧
    ∀ v m₁, (i.evalAll s).run m = .ok v m₁ →
      ((Reader.ofSource t i.limits.parse).read? = none →
        (i.evalAll (s ++ "\n" ++ t)).run m = .ok v m₁) ∧
      ((Reader.ofSource t i.limits.parse).read? ≠ none →
        Run.withoutExcerpt ((i.evalAll (s ++ "\n" ++ t)).run m) =
          Run.withoutExcerpt ((i.evalAll t).run m₁)) := by
  obtain ⟨rest, hrest, hjoin⟩ := i.evalAll_join hs t
  rw [hjoin]
  refine ⟨fun stop m₁ hrun => Run.run_bind_of_error hrun, fun v m₁ hrun => ?_⟩
  rw [Run.run_bind_of_ok hrun]
  constructor
  · intro hnone
    have hnil : rest = [] := by
      rw [← Reader.outcomes_eq_nil_iff] at hnone
      simpa [Reader.verdicts, hnone] using hrest
    rw [hnil]
    rfl
  · intro hsome
    rw [i.withoutExcerpt_evalOutcomes v hrest, evalAll]
    rw [i.evalOutcomes_of_ne_nil v .nil (mt (Reader.outcomes_eq_nil_iff _).mp hsome)]

/-- Evaluating all of a text ends with the result; running out of fuel is no end. -/
def EvaluatesAllTo (limits : Limits) (source : String) (m : Machine)
    (r : EStateM.Result Stop Machine Value) : Prop :=
  ∃ fuel, (evalAll ⟨limits, fuel⟩ source).run m = r ∧ ∀ m', r ≠ .error .outOfFuel m'

theorem evalAll_of_le {limits : Limits} {n n' : Nat} (h : n ≤ n') {source : String} {m : Machine}
    {r : EStateM.Result Stop Machine Value} (hrun : (evalAll ⟨limits, n⟩ source).run m = r)
    (hr : ∀ m', r ≠ .error .outOfFuel m') : (evalAll ⟨limits, n'⟩ source).run m = r :=
  evalOutcomes_of_le h hrun hr

/-- The expressions before the first one that cannot be read are evaluated, and then the failure is
reported on the machine that they left. -/
theorem evaluatesAllTo_unreadable {limits : Limits} {fuel : Nat} {t : String} {ds : List Datum}
    {e : ReadError} {rest : List (Except ReadError Datum)} {vs : List Value} {m m₁ : Machine}
    (hout : (Reader.ofSource t limits.parse).outcomes = ds.map .ok ++ .error e :: rest)
    (hrun : (ds.mapM (evaluate ⟨limits, fuel⟩)).run m = .ok vs m₁) :
    EvaluatesAllTo limits t m (.error (.error (.unreadable e)) m₁) := by
  refine ⟨fuel, ?_, nofun⟩
  have hdata : (evalOutcomes ⟨limits, fuel⟩ .nil (ds.map .ok)).run m =
      .ok (vs.getLastD .nil) m₁ := by
    rw [evalOutcomes_map_ok, Run.run_bind_of_ok hrun]
    rfl
  rw [evalAll, hout, evalOutcomes_append, Run.run_bind_of_ok hdata]
  rfl

section Join

variable {limits : Limits} {s : String} {ds : List Datum} {m : Machine}
  (hs : (Reader.ofSource s limits.parse).readAll = .ok ds) {t : String}

include hs

/-- Both texts end with enough fuel for either. -/
theorem EvaluatesAllTo.join {v : Value} {m₁ : Machine} {r : EStateM.Result Stop Machine Value}
    (hfirst : EvaluatesAllTo limits s m (.ok v m₁))
    (ht : (Reader.ofSource t limits.parse).read? ≠ none) (hsecond : EvaluatesAllTo limits t m₁ r) :
    ∃ r', EvaluatesAllTo limits (s ++ "\n" ++ t) m r' ∧
      Run.withoutExcerpt r' = Run.withoutExcerpt r := by
  obtain ⟨n, hrun, hok⟩ := hfirst
  obtain ⟨n', hrun', hr⟩ := hsecond
  have hjoin := run_evalAll_join ⟨limits, max n n'⟩ hs t m
  have heq := (hjoin.2 v m₁ (evalAll_of_le (Nat.le_max_left n n') hrun hok)).2 ht
  rw [evalAll_of_le (Nat.le_max_right n n') hrun' hr] at heq
  exact ⟨_, ⟨max n n', rfl, Run.ne_outOfFuel_of_withoutExcerpt heq hr⟩, heq⟩

/-- Whatever the joined text ends with comes from the two texts. -/
theorem EvaluatesAllTo.of_join {r' : EStateM.Result Stop Machine Value}
    (h : EvaluatesAllTo limits (s ++ "\n" ++ t) m r') :
    (∃ stop m₁, EvaluatesAllTo limits s m (.error stop m₁) ∧ r' = .error stop m₁) ∨
    ∃ v m₁, EvaluatesAllTo limits s m (.ok v m₁) ∧
      (((Reader.ofSource t limits.parse).read? = none ∧ r' = .ok v m₁) ∨
        ((Reader.ofSource t limits.parse).read? ≠ none ∧ ∃ r, EvaluatesAllTo limits t m₁ r ∧
          Run.withoutExcerpt r' = Run.withoutExcerpt r)) := by
  obtain ⟨n, hrun, hr⟩ := h
  obtain ⟨herror, hok⟩ := run_evalAll_join ⟨limits, n⟩ hs t m
  cases hfirst : (evalAll ⟨limits, n⟩ s).run m with
  | error stop m₁ =>
      have heq := hrun.symm.trans (herror stop m₁ hfirst)
      exact .inl ⟨stop, m₁, ⟨n, hfirst, fun m' hout => hr m' (heq.trans hout)⟩, heq⟩
  | ok v m₁ =>
      obtain ⟨hempty, hsecond⟩ := hok v m₁ hfirst
      refine .inr ⟨v, m₁, ⟨n, hfirst, nofun⟩, ?_⟩
      by_cases ht : (Reader.ofSource t limits.parse).read? = none
      · exact .inl ⟨ht, hrun.symm.trans (hempty ht)⟩
      · have heq := hsecond ht
        rw [hrun] at heq
        exact .inr ⟨ht, _, ⟨n, rfl, Run.ne_outOfFuel_of_withoutExcerpt heq.symm hr⟩, heq⟩

end Join

/-- Evaluation composes over line ends. Let the first text be one that reads without an error. If
its evaluation fails, the joined text fails in the same way on the same machine. Otherwise the
joined text ends as the second does on the machine that the first left, up to the excerpt of a
report of reading, or with the value of the first if the second has no expression; what stands
before the first failure to read has been evaluated by then. And the joined text ends in no other
way. -/
theorem evaluating_composes_over_lines (limits : Limits) (m : Machine) {s : String}
    {ds : List Datum} (hs : (Reader.ofSource s limits.parse).readAll = .ok ds) (t : String) :
    (∀ stop m₁, EvaluatesAllTo limits s m (.error stop m₁) →
      EvaluatesAllTo limits (s ++ "\n" ++ t) m (.error stop m₁)) ∧
    (∀ v m₁, EvaluatesAllTo limits s m (.ok v m₁) →
      ((Reader.ofSource t limits.parse).read? = none →
        EvaluatesAllTo limits (s ++ "\n" ++ t) m (.ok v m₁)) ∧
      ((Reader.ofSource t limits.parse).read? ≠ none → ∀ r, EvaluatesAllTo limits t m₁ r →
        ∃ r', EvaluatesAllTo limits (s ++ "\n" ++ t) m r' ∧
          Run.withoutExcerpt r' = Run.withoutExcerpt r) ∧
      (∀ (ds' : List Datum) e rest fuel vs m₂,
        (Reader.ofSource t limits.parse).outcomes = ds'.map .ok ++ .error e :: rest →
        (ds'.mapM (evaluate ⟨limits, fuel⟩)).run m₁ = .ok vs m₂ →
        ∃ e', EvaluatesAllTo limits (s ++ "\n" ++ t) m (.error (.error (.unreadable e')) m₂) ∧
          e'.withoutContext = e.withoutContext)) ∧
    (∀ r', EvaluatesAllTo limits (s ++ "\n" ++ t) m r' →
      (∃ stop m₁, EvaluatesAllTo limits s m (.error stop m₁) ∧ r' = .error stop m₁) ∨
      ∃ v m₁, EvaluatesAllTo limits s m (.ok v m₁) ∧
        (((Reader.ofSource t limits.parse).read? = none ∧ r' = .ok v m₁) ∨
          ((Reader.ofSource t limits.parse).read? ≠ none ∧ ∃ r, EvaluatesAllTo limits t m₁ r ∧
            Run.withoutExcerpt r' = Run.withoutExcerpt r))) := by
  refine ⟨?_, ?_, fun r' h => h.of_join hs⟩
  · rintro stop m₁ ⟨n, hrun, hr⟩
    exact ⟨n, (run_evalAll_join ⟨limits, n⟩ hs t m).1 stop m₁ hrun, hr⟩
  · intro v m₁ hfirst
    refine ⟨?_, fun ht r hsecond => hfirst.join hs ht hsecond, ?_⟩
    · obtain ⟨n, hrun, hr⟩ := hfirst
      exact fun ht => ⟨n, ((run_evalAll_join ⟨limits, n⟩ hs t m).2 v m₁ hrun).1 ht, hr⟩
    · intro ds' e rest fuel vs m₂ hout hrun
      have ht : (Reader.ofSource t limits.parse).read? ≠ none := by
        rw [Ne, ← Reader.outcomes_eq_nil_iff, hout]
        simp
      obtain ⟨r', hjoin, heq⟩ := hfirst.join hs ht (evaluatesAllTo_unreadable hout hrun)
      cases r' with
      | ok v' m' => cases heq
      | error stop m' =>
          obtain ⟨hstop, rfl⟩ := EStateM.Result.error.inj heq
          obtain ⟨e', rfl, he⟩ := Stop.withoutExcerpt_eq_unreadable hstop
          exact ⟨e', hjoin, he⟩

/-- The first text ends in a comment, and the second prints before it fails to be read. -/
theorem evaluating_composes_over_lines_unreadable :
    let s := "(SET X 1) ; ("
    let t := "(PRINT X) ) 2"
    let m := Machine.initial none
    ∃ ds m₁ m₂ e, (Reader.ofSource s Limits.bounded.parse).readAll = .ok ds ∧
      EvaluatesAllTo .bounded s m (.ok (.number 1) m₁) ∧
      EvaluatesAllTo .bounded (s ++ "\n" ++ t) m (.error (.error (.unreadable e)) m₂) ∧
      e.withoutContext = ⟨.invalid, "Unexpected closing parenthesis", none, some ")"⟩ ∧
      m₂.sink.bytes = "1\n".toUTF8 := by
  intro s t m
  let name (x : String) : Datum := .symbol (.ofName x)
  let first : Datum := .ofList [name "SET", name "X", .number 1] .nil
  let second : Datum := .ofList [name "PRINT", name "X"] .nil
  let error : ReadError := .located .invalid "Unexpected closing parenthesis" t 10 (some ")")
  have hs : (Reader.ofSource s Limits.bounded.parse).readAll = .ok [first] := by decide +kernel
  have ht : (Reader.ofSource t Limits.bounded.parse).outcomes =
      [second].map .ok ++ .error error :: [.ok (.number 2)] := by decide +kernel
  have hfirst : (evalAll ⟨.bounded, 0⟩ s).run' m = some (.number 1) := by decide +kernel
  have hsecond : ([second].mapM (evaluate ⟨.bounded, 0⟩)).run' ((evalAll ⟨.bounded, 0⟩ s).after m) =
      some [.number 1] := by decide +kernel
  have hprinted : (([second].mapM (evaluate ⟨.bounded, 0⟩)).after
      ((evalAll ⟨.bounded, 0⟩ s).after m)).sink.bytes = "1\n".toUTF8 := by decide +kernel
  have hends : EvaluatesAllTo .bounded s m (.ok (.number 1) ((evalAll ⟨.bounded, 0⟩ s).after m)) :=
    ⟨0, Run.run_eq_ok_of_run' hfirst, nofun⟩
  obtain ⟨-, -, hunreadable⟩ := (evaluating_composes_over_lines .bounded m hs t).2.1 _ _ hends
  obtain ⟨e, hjoin, he⟩ := hunreadable _ _ _ 0 _ _ ht (Run.run_eq_ok_of_run' hsecond)
  exact ⟨_, _, _, e, hs, hends, hjoin, he, hprinted⟩

end Interpreter

end Lisp
