import Lisp.Proofs.Evaluation.Log
import Mathlib.Data.List.Induction

/-! # Binding parameters

A parameter list is a chain of pairs with any end, and may be of another length than the arguments.
Parameters are looked at only as far as arguments reach; what counts is the chain cut to that
length, and the end of the chain if arguments are left over. -/

namespace Lisp

namespace Value

/-- What follows the last pair of a list, and so is not a pair. -/
def ending : Value → Value
  | pair _ _ rest => rest.ending
  | v => v

/-- New pairs over `vs` hold these elements. -/
theorem elements_ofList (vs : List Value) (tail : Value) (n : Serial) :
    ((ofList vs tail).run n).1.elements = vs ++ tail.elements := by
  induction vs generalizing n with
  | nil => rfl
  | cons v vs ih => exact congrArg (v :: ·) (ih n)

theorem ending_ofList (vs : List Value) (tail : Value) (n : Serial) :
    ((ofList vs tail).run n).1.ending = tail.ending := by
  induction vs generalizing n with
  | nil => rfl
  | cons v vs ih => exact ih n

/-! ## Which parameters fit -/

theorem symbol?_eq_none {v : Value} (h : ∀ x, v ≠ symbol x) : v.symbol? = none := by
  cases v with
  | symbol x => exact absurd rfl (h x)
  | _ => rfl

/-- The first parameter that is to take one of `count` arguments and is not a symbol; if there is
none, the end of the list, if it is to take arguments and is not a symbol. -/
def parameterFault? (params : Value) (count : Nat) : Option TypeFault :=
  match (params.elements.take count).find? (fun p => p.symbol?.isNone) with
  | some p => some (.parameter p)
  | none =>
    if params.elements.length < count ∧ params.ending.symbol? = none then
      some (.parameterTail params.ending)
    else none

@[simp] theorem parameterFault?_zero (params : Value) : params.parameterFault? 0 = none := by
  simp [parameterFault?]

@[simp] theorem parameterFault?_symbol (i : Serial) (x : Symbol) (params : Value) (n : Nat) :
    (pair i (symbol x) params).parameterFault? (n + 1) = params.parameterFault? n := by
  have hx : (symbol x).symbol?.isNone = false := rfl
  simp [parameterFault?, elements, ending, hx]

theorem parameterFault?_of_not_symbol (i : Serial) {p : Value} (hp : p.symbol? = none)
    (params : Value) (n : Nat) :
    (pair i p params).parameterFault? (n + 1) = some (.parameter p) := by
  simp [parameterFault?, elements, hp]

theorem parameterFault?_end {t : Value} (hpair : ∀ i first rest, t ≠ pair i first rest) {n : Nat}
    (hn : 0 < n) :
    t.parameterFault? n = if t.symbol? = none then some (.parameterTail t) else none := by
  cases t with
  | pair i first rest => exact absurd rfl (hpair i first rest)
  | _ => simp [parameterFault?, elements, ending, hn]

theorem parameterFault?_isSome (params : Value) (count : Nat) :
    (params.parameterFault? count).isSome ↔
      (∃ p ∈ params.elements.take count, p.symbol? = none) ∨
        (params.elements.length < count ∧ params.ending.symbol? = none) := by
  rw [parameterFault?]
  cases hfind : (params.elements.take count).find? (fun p => p.symbol?.isNone) with
  | some p =>
      have hmem := List.mem_of_find?_eq_some hfind
      have hp : p.symbol? = none := by simpa using List.find?_some hfind
      simpa using .inl ⟨p, hmem, hp⟩
  | none =>
      have hall : ¬∃ p ∈ params.elements.take count, p.symbol? = none := by
        simpa using hfind
      simp only [hall, false_or]
      split
      · rename_i hend
        exact iff_of_true rfl hend
      · rename_i hend
        exact iff_of_false Bool.false_ne_true hend

/-! ## Which argument a name takes -/

/-- The name takes the arguments that the elements of the parameter list leave over. -/
def TakesRest (params : Value) (args : List Value) (x : Symbol) : Prop :=
  params.elements.length < args.length ∧ params.ending = .symbol x ∧ x ≠ .nil

/-- No parameter of the name has an argument. -/
def TakesNone (params : Value) (args : List Value) (x : Symbol) : Prop :=
  ∀ i < args.length, params.elements[i]? ≠ some (.symbol x)

/-- The last parameter of the name that has an argument takes `v`. -/
def TakesLast (params : Value) (args : List Value) (x : Symbol) (v : Value) : Prop :=
  ∃ i, params.elements[i]? = some (.symbol x) ∧ args[i]? = some v ∧
    ∀ j, i < j → j < args.length → params.elements[j]? ≠ some (.symbol x)

section Takes

variable {params w v : Value} {ws : List Value} {x y : Symbol} (i : Serial)

theorem takesNone_cons :
    (pair i (symbol y) params).TakesNone (w :: ws) x ↔ y ≠ x ∧ params.TakesNone ws x := by
  constructor
  · intro h
    refine ⟨fun hyx => h 0 (by simp) (by simp [elements, hyx]), fun j hj => ?_⟩
    simpa [elements] using h (j + 1) (by simpa using hj)
  · rintro ⟨hyx, h⟩ j hj
    cases j with
    | zero => simpa [elements] using hyx
    | succ j => simpa [elements] using h j (by simpa using hj)

/-- What the rest of the list takes goes before what the first parameter takes. -/
theorem takesLast_cons :
    (pair i (symbol y) params).TakesLast (w :: ws) x v ↔
      params.TakesLast ws x v ∨ (params.TakesNone ws x ∧ y = x ∧ w = v) := by
  constructor
  · rintro ⟨j, hx, hv, hlast⟩
    have hafter : ∀ k, j < k + 1 → k < ws.length → params.elements[k]? ≠ some (.symbol x) := by
      intro k hjk hk
      simpa [elements] using hlast (k + 1) hjk (by simpa using hk)
    cases j with
    | zero =>
        have hyx : y = x := by simpa [elements] using hx
        exact .inr ⟨fun k hk => hafter k (by omega) hk, hyx, by simpa using hv⟩
    | succ j =>
        refine .inl ⟨j, by simpa [elements] using hx, by simpa using hv, fun k hjk hk => ?_⟩
        exact hafter k (by omega) hk
  · rintro (⟨j, hx, hv, hlast⟩ | ⟨hnone, rfl, rfl⟩)
    · refine ⟨j + 1, by simpa [elements] using hx, by simpa using hv, fun k hjk hk => ?_⟩
      cases k with
      | zero => omega
      | succ k => simpa [elements] using hlast k (by omega) (by simpa using hk)
    · refine ⟨0, by simp [elements], by simp, fun k hk hlt => ?_⟩
      cases k with
      | zero => omega
      | succ k => simpa [elements] using hnone k (by simpa using hlt)

end Takes

end Value

/-! ## Walking parameters and arguments -/

namespace ParameterMatch

/-- The match gives every name what the parameter list has for it. -/
structure Fits (pm : ParameterMatch) (params : Value) (args : List Value) : Prop where
  lookup_some : ∀ x v, pm.each.reverse.lookup x = some v ↔ params.TakesLast args x v
  lookup_none : ∀ x, pm.each.reverse.lookup x = none ↔ params.TakesNone args x
  rest : ∀ x vs, pm.rest = some (x, vs) ↔
    params.TakesRest args x ∧ args.drop params.elements.length = vs

theorem fits_nil (params : Value) : Fits ⟨[], none⟩ params [] := by
  refine ⟨fun x v => ?_, fun x => ?_, fun x vs => ?_⟩
  · simp [Value.TakesLast]
  · simp [Value.TakesNone]
  · simp [Value.TakesRest]

theorem Fits.cons {pm : ParameterMatch} {params : Value} {vs : List Value}
    (h : pm.Fits params vs) (i : Serial) (y : Symbol) (w : Value) :
    (pm.cons y w).Fits (.pair i (.symbol y) params) (w :: vs) := by
  have hlookup : ∀ x, (pm.cons y w).each.reverse.lookup x =
      (pm.each.reverse.lookup x).or (if y = x then some w else none) := by
    intro x
    rw [ParameterMatch.cons, List.reverse_cons, List.lookup_append]
    by_cases hyx : y = x
    · simp [hyx]
    · have hxy : (x == y) = false := by simpa using Ne.symm hyx
      simp [List.lookup_cons, hyx, hxy]
  refine ⟨fun x v => ?_, fun x => ?_, fun x ws => ?_⟩
  · rw [hlookup, Value.takesLast_cons, ← h.lookup_some, ← h.lookup_none]
    cases pm.each.reverse.lookup x <;> simp
  · rw [hlookup, Value.takesNone_cons, ← h.lookup_none]
    cases pm.each.reverse.lookup x <;> simp
  · simpa [ParameterMatch.cons, Value.TakesRest, Value.elements, Value.ending] using h.rest x ws

theorem fits_symbol (x : Symbol) {vs : List Value} (hvs : vs ≠ []) :
    Fits ⟨[], if x.isNil then none else some (x, vs)⟩ (.symbol x) vs := by
  refine ⟨fun y v => ?_, fun y => ?_, fun y ws => ?_⟩
  · simp [Value.TakesLast, Value.elements]
  · simp [Value.TakesNone, Value.elements]
  · have hlength : 0 < vs.length := List.length_pos_iff.mpr hvs
    by_cases hnil : x = .nil
    · simp [Value.TakesRest, Value.ending, Symbol.isNil, hnil, eq_comm]
    · have hrest : Value.TakesRest (.symbol x) vs y ↔ x = y := by
        simp only [Value.TakesRest, Value.elements, Value.ending, List.length_nil, hlength,
          Value.symbol.injEq, true_and]
        exact ⟨And.left, fun hxy => ⟨hxy, hxy ▸ hnil⟩⟩
      rw [hrest]
      simp [Symbol.isNil, hnil, Value.elements]

theorem ofParams_spec (params : Value) (args : List Value) :
    (∀ fault, params.parameterFault? args.length = some fault →
      ofParams params args = .error (.type fault none)) ∧
    (params.parameterFault? args.length = none →
      ∃ pm, ofParams params args = .ok pm ∧ pm.Fits params args) := by
  fun_induction ofParams params args with
  | case1 params => exact ⟨by simp, fun _ => ⟨_, rfl, fits_nil params⟩⟩
  | case2 i x params v vs ih =>
      rw [List.length_cons, Value.parameterFault?_symbol]
      refine ⟨fun fault hfault => ?_, fun hnone => ?_⟩
      · rw [ih.1 fault hfault]
        rfl
      · obtain ⟨pm, hpm, hfits⟩ := ih.2 hnone
        rw [hpm]
        exact ⟨_, rfl, hfits.cons i x v⟩
  | case3 i p rest v vs hp =>
      rw [List.length_cons, Value.parameterFault?_of_not_symbol i (Value.symbol?_eq_none hp)]
      exact ⟨by simp, by simp⟩
  | case4 x vs hvs =>
      have hnone : (Value.symbol x).parameterFault? vs.length = none := by
        rw [Value.parameterFault?_end (by simp) (List.length_pos_iff.mpr hvs)]
        rfl
      rw [hnone]
      exact ⟨by simp, fun _ => ⟨_, rfl, fits_symbol x hvs⟩⟩
  | case5 vs p hsymbol hvs _ hpair =>
      obtain ⟨v, vs, rfl⟩ := List.exists_cons_of_ne_nil hvs
      rw [Value.parameterFault?_end (fun i first rest h => hpair i first rest v vs h rfl) (by simp),
        if_pos (Value.symbol?_eq_none hsymbol)]
      exact ⟨by simp, by simp⟩

end ParameterMatch

/-! ## The frame of a call -/

theorem Bindings.lookup_reverse_concat (bs : Bindings) (y : Symbol) (v : Value) (x : Symbol) :
    (bs ++ [(y, v)]).reverse.lookup x = if x = y then some v else bs.reverse.lookup x := by
  rw [List.reverse_append, List.reverse_singleton, List.singleton_append, List.lookup_cons]
  by_cases hx : x = y
  · simp [hx]
  · have hbeq : (x == y) = false := by simpa using hx
    simp [hx, hbeq]

/-- Of several bindings of a name a frame keeps the last. -/
theorem Frame.lookup?_ofBindings (f : FrameId) (bs : Bindings) (x : Symbol) :
    (ofBindings f bs).lookup? x = bs.reverse.lookup x := by
  induction bs using List.reverseRecOn with
  | nil => rfl
  | append_singleton bs b ih =>
      have hlast : ofBindings f (bs ++ [b]) = (ofBindings f bs).define b.1 b.2 := by
        simp [ofBindings]
      rw [hlast, lookup?_define, ih, Bindings.lookup_reverse_concat]

/-- The frame binds a name that takes what is left over to a new list of that, any other name to
the last argument that a parameter of the name takes, and nothing else. -/
structure Frame.BindsParameters (frame : Frame) (params : Value) (args : List Value) : Prop where
  rest : ∀ x, params.TakesRest args x → ∃ l, frame.lookup? x = some l ∧
    l.elements = args.drop params.elements.length ∧ l.ending = .nil
  each : ∀ x, ¬params.TakesRest args x → ∀ v,
    frame.lookup? x = some v ↔ params.TakesLast args x v

theorem ParameterMatch.Fits.bindsParameters {pm : ParameterMatch} {params : Value}
    {args : List Value} (h : pm.Fits params args) (f : FrameId) (n : Serial) :
    (Frame.ofBindings f (pm.bindings.run n).1).BindsParameters params args := by
  cases hrest : pm.rest with
  | none =>
      have hbindings : (pm.bindings.run n).1 = pm.each := by
        rw [bindings, hrest]
        rfl
      rw [hbindings]
      refine ⟨fun x hx => ?_, fun x _ v => ?_⟩
      · have hsome := (h.rest x _).mpr ⟨hx, rfl⟩
        rw [hrest] at hsome
        cases hsome
      · rw [Frame.lookup?_ofBindings, h.lookup_some]
  | some found =>
      obtain ⟨y, vs⟩ := found
      obtain ⟨hy, hvs⟩ := (h.rest y vs).mp hrest
      have hbindings : (pm.bindings.run n).1 =
          pm.each ++ [(y, ((Value.ofList vs .nil).run n).1)] := by
        rw [bindings, hrest]
        rfl
      rw [hbindings]
      refine ⟨fun x hx => ?_, fun x hx v => ?_⟩
      · have hsome := hrest.symm.trans ((h.rest x _).mpr ⟨hx, rfl⟩)
        obtain ⟨rfl, -⟩ := Prod.mk.inj (Option.some.inj hsome)
        refine ⟨((Value.ofList vs .nil).run n).1, ?_, ?_, Value.ending_ofList vs .nil n⟩
        · rw [Frame.lookup?_ofBindings, Bindings.lookup_reverse_concat, if_pos rfl]
        · rw [Value.elements_ofList, hvs]
          exact List.append_nil vs
      · have hxy : x ≠ y := fun hxy => hx (hxy ▸ hy)
        rw [Frame.lookup?_ofBindings, Bindings.lookup_reverse_concat, if_neg hxy, h.lookup_some]

theorem Run.run_extend_of_match {params : Value} {args : List Value} {pm : ParameterMatch}
    (h : ParameterMatch.ofParams params args = .ok pm) (f : FrameId) (m : Machine) :
    (extend f params args).run m =
      .ok m.heap.frames.size
        { m with
          heap := (m.heap.push (.ofBindings f (pm.bindings.run m.serial).1)).2
          serial := (pm.bindings.run m.serial).2 } := by
  rw [run_extend, Frame.ofParams, h]
  rfl

/-- Binding parameters fails exactly if an argument reaches a parameter that is not a symbol, or is
left over for an end that is not one; the leftmost such place is named and nothing is changed.
Otherwise there is one more frame, under the given one, that binds the parameters to the
arguments. -/
theorem extend_binds_parameters (f : FrameId) (params : Value) (args : List Value) (m : Machine) :
    let unfit := (∃ p ∈ params.elements.take args.length, p.symbol? = none) ∨
      (params.elements.length < args.length ∧ params.ending.symbol? = none)
    ((∃ fault m', (Run.extend f params args).run m = .error (.error (.type fault none)) m') ↔
      unfit) ∧
    (unfit → ∃ fault, params.parameterFault? args.length = some fault ∧
      (Run.extend f params args).run m = .error (.error (.type fault none)) m) ∧
    (¬unfit → ∃ m' frame, (Run.extend f params args).run m = .ok m.heap.frames.size m' ∧
      m'.heap.frames.size = m.heap.frames.size + 1 ∧
      (∀ g < m.heap.frames.size, m'.heap.frame? g = m.heap.frame? g) ∧
      m'.heap.frame? m.heap.frames.size = some frame ∧ frame.parent = some f ∧
      frame.BindsParameters params args ∧ m'.sink = m.sink ∧ m'.events = m.events) := by
  intro unfit
  have hunfit : (params.parameterFault? args.length).isSome ↔ unfit :=
    params.parameterFault?_isSome args.length
  obtain ⟨hfault, hfits⟩ := ParameterMatch.ofParams_spec params args
  cases hcase : params.parameterFault? args.length with
  | some fault =>
      have hbad : unfit := hunfit.mp (by rw [hcase]; rfl)
      have hrun : (Run.extend f params args).run m = .error (.error (.type fault none)) m := by
        rw [Run.run_extend, Frame.ofParams, hfault fault hcase]
        rfl
      exact ⟨iff_of_true ⟨fault, m, hrun⟩ hbad, fun _ => ⟨fault, rfl, hrun⟩, fun h => absurd hbad h⟩
  | none =>
      have hgood : ¬unfit := fun hbad => by simpa [hcase] using hunfit.mpr hbad
      obtain ⟨pm, hpm, hpmfits⟩ := hfits hcase
      have hrun := Run.run_extend_of_match hpm f m
      refine ⟨iff_of_false ?_ hgood, fun hbad => absurd hbad hgood, fun _ => ?_⟩
      · rintro ⟨fault, m', herror⟩
        cases hrun.symm.trans herror
      · exact ⟨_, .ofBindings f (pm.bindings.run m.serial).1, hrun, Heap.size_push _,
          fun g hg => Heap.frame?_push_of_lt _ hg, Heap.frame?_push_size _,
          Frame.parent_ofBindings f _, hpmfits.bindsParameters f m.serial, rfl, rfl⟩

/-- The parameters `(X Y X . Y)` with four arguments: `X` is bound to the third and `Y` to the list of
the fourth. In `(X 5 . 7)` a single argument does not reach the `5`, which three arguments do. -/
theorem extend_binds_parameters_repeated :
    let x : Symbol := .ofName "X"
    let y : Symbol := .ofName "Y"
    let m : Machine := .initial none
    let params : Value :=
      .pair 2 (.symbol x) (.pair 1 (.symbol y) (.pair 0 (.symbol x) (.symbol y)))
    let faulty : Value := .pair 4 (.symbol x) (.pair 3 (.number 5) (.number 7))
    (∃ m' frame l, (Run.extend 0 params [.number 1, .number 2, .number 3, .number 4]).run m =
        .ok 1 m' ∧ m'.heap.frame? 1 = some frame ∧ frame.parent = some 0 ∧
      frame.lookup? x = some (.number 3) ∧ frame.lookup? y = some l ∧
      l.elements = [.number 4] ∧ l.ending = .nil) ∧
    (∃ m', (Run.extend 0 faulty [.number 1]).run m = .ok 1 m') ∧
    (Run.extend 0 faulty [.number 1, .number 2, .number 3]).run m =
      .error (.error (.type (.parameter (.number 5)) none)) m := by
  intro x y m params faulty
  have hxy : x ≠ y := by decide +kernel
  refine ⟨?_, ?_, ?_⟩
  · obtain ⟨-, -, hok⟩ := extend_binds_parameters 0 params
      [.number 1, .number 2, .number 3, .number 4] m
    obtain ⟨m', frame, hrun, -, -, hframe, hparent, hbinds, -, -⟩ := hok (by decide +kernel)
    obtain ⟨l, hl, helements, hending⟩ := hbinds.rest y ⟨by decide, rfl, by decide +kernel⟩
    refine ⟨m', frame, l, hrun, hframe, hparent, ?_, hl, helements, hending⟩
    refine (hbinds.each x (fun h => hxy ?_) (.number 3)).mpr ?_
    · exact (Value.symbol.inj h.2.1).symm
    · refine ⟨2, rfl, rfl, fun j hj hlt => ?_⟩
      obtain rfl : j = 3 := Nat.le_antisymm (Nat.le_of_lt_succ hlt) hj
      exact nofun
  · obtain ⟨-, -, hok⟩ := extend_binds_parameters 0 faulty [.number 1] m
    obtain ⟨m', frame, hrun, -⟩ := hok (by decide +kernel)
    exact ⟨m', hrun⟩
  · obtain ⟨-, hfail, -⟩ := extend_binds_parameters 0 faulty [.number 1, .number 2, .number 3] m
    obtain ⟨fault, hfault, hrun⟩ := hfail (by decide +kernel)
    cases hfault
    exact hrun

end Lisp
