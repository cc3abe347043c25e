import Lisp.Proofs.Evaluation.Choice
import Lisp.Proofs.Heap.Parameters
import Lisp.Proofs.Value.Equality

/-! # Calls of primitives

A call of a primitive on quoted arguments goes a long way: its head is looked up, its operands are
evaluated one by one, and what fails on the way is noted with the call. All that comes to is the
primitive applied to the arguments themselves. -/

namespace Lisp

/-! ## Lists of the same elements -/

namespace Value

theorem equal_refl (v : Value) : v.equal v = true := by
  cases v <;> simp [equal, identical]

theorem eq_of_elements_eq_nil {v : Value} (h : v.elements = []) : v.ending = v := by
  cases v with
  | pair i a d => cases h
  | _ => rfl

/-- Lists are equal if they have the same elements and the same end, whatever pairs they are made
of. -/
theorem equal_of_elements {v w : Value} (helements : v.elements = w.elements)
    (hending : v.ending = w.ending) : v.equal w = true := by
  induction v generalizing w with
  | pair i a d _ ih =>
      cases w with
      | pair j b e =>
          obtain ⟨rfl, hrest⟩ := List.cons.inj helements
          rw [equal, equal_refl, ih hrest hending, Bool.and_self, Bool.or_true]
      | _ => cases helements
  | _ =>
      rw [eq_of_elements_eq_nil rfl, eq_of_elements_eq_nil helements.symm] at hending
      rw [← hending]
      exact equal_refl _

end Value

/-! ## What a primitive makes -/

namespace Primitive

/-- What is made, if anything, is the same at any time but for the pairs that are made new. -/
def MakesAlike (x : Except Error (Fresh Value)) : Prop :=
  ∀ make, x = .ok make → ∀ n n', (make.run n).1.equal (make.run n').1 = true

theorem makesAlike_error (e : Error) : MakesAlike (.error e) := by
  intro make h
  cases h

theorem makesAlike_map_pure {α : Type} (x : Except Error α) (g : α → Value) :
    MakesAlike (x.map fun a => pure (g a)) := by
  intro make h n n'
  cases x with
  | error e => cases h
  | ok a =>
      cases h
      exact Value.equal_refl (g a)

theorem makesAlike_cons (v w : Value) : MakesAlike (.ok (Value.cons v w)) := by
  intro make h n n'
  cases h
  exact Value.equal_cons (Value.equal_refl v) (Value.equal_refl w) n n'

theorem makesAlike_ofList (vs : List Value) : MakesAlike (.ok (Value.ofList vs .nil)) := by
  intro make h n n'
  cases h
  apply Value.equal_of_elements
  · rw [Value.elements_ofList, Value.elements_ofList]
  · rw [Value.ending_ofList, Value.ending_ofList]

theorem makesAlike_answer (op : Primitive) (args : List Value) : MakesAlike (op.answer args) := by
  unfold answer
  split
  · exact makesAlike_map_pure _ id
  · exact makesAlike_map_pure _ id
  · exact makesAlike_cons _ _
  · exact makesAlike_ofList _
  · exact makesAlike_map_pure (.ok _) Value.ofBool
  · exact makesAlike_map_pure (.ok _) Value.ofBool
  · exact makesAlike_map_pure (.ok _) Value.ofBool
  · exact makesAlike_map_pure _ _
  · exact makesAlike_map_pure _ _
  · exact makesAlike_map_pure _ _
  · exact makesAlike_map_pure _ _
  · exact makesAlike_map_pure _ id
  · exact makesAlike_map_pure _ id
  · exact makesAlike_error _

theorem makesAlike_apply (op : Primitive) (args : List Value) : MakesAlike (op.apply args) := by
  unfold apply Arity.check
  split
  · exact op.makesAlike_answer args
  · exact makesAlike_error _

/-- A type error of a primitive has no call noted on it. -/
theorem context_of_apply {op : Primitive} {args : List Value} {fault : TypeFault}
    {context : Option Value} (h : op.apply args = .error (.type fault context)) :
    context = none := by
  have hplain := op.apply_plainErrors args _ h
  cases context with
  | none => rfl
  | some call => cases hplain

end Primitive

/-! ## Quoted operands -/

namespace Value

def quoteHead : Value := .symbol (Builtin.symbol (.special .quote))

/-- The operands `(QUOTE a) …` for the values `a …`, of whatever pairs they are made. -/
inductive Quotes : (args : List Value) → (operands : Value) → Prop
  | nil : Quotes [] .nil
  | cons (i j k : Serial) (a : Value) {args : List Value} {operands : Value} :
      Quotes args operands →
      Quotes (a :: args) (.pair i (.pair j quoteHead (.pair k a .nil)) operands)

end Value

namespace Evaluator

variable {ev : Evaluator} {f : FrameId} {m : Machine}

theorem specialForm?_quoteHead : specialForm? .quoteHead = some .quote := by
  decide +kernel

/-- A quotation is what it quotes, and leaves the machine as it is. -/
theorem step_quote (i j : Serial) (a more : Value) :
    (ev.step (.pair i .quoteHead (.pair j a more)) f).run m = .ok a m := by
  simp only [step, call, specialForm?_quoteHead, special]
  rfl

theorem operands_of_quotes {args : List Value} {operands : Value}
    (h : Value.Quotes args operands) : (ev.step.operands f operands).run m = .ok args m := by
  induction h with
  | nil => rfl
  | cons i j k a _ ih =>
      rw [Evaluator.operands, Run.run_bind_of_ok (step_quote j k a .nil), Run.run_bind_of_ok ih]
      rfl

end Evaluator

/-! ## The call -/

/-- The symbol of an operator names that operator, and is neither `NIL` nor `TRUE`. -/
theorem Builtin.symbol_spec (b : Builtin) :
    b.symbol.builtin? = some b ∧ (b.symbol.isNil || b.symbol.isTruth) = false := by
  cases b with
  | special form => cases form <;> decide +kernel
  | primitive op => cases op <;> decide +kernel

namespace Primitive

def head (op : Primitive) : Value := .symbol (Builtin.symbol (.primitive op))

/-- The primitive applied directly, with new pairs from the counter of the machine. -/
def perform (op : Primitive) (args : List Value) : Run Value := do
  Run.fresh (← Run.ofExcept (op.apply args))

variable {op : Primitive} {args : List Value}

theorem run_perform_of_ok {make : Fresh Value} (h : op.apply args = .ok make) (m : Machine) :
    (op.perform args).run m =
      .ok (make.run m.serial).1 { m with serial := (make.run m.serial).2 } := by
  rw [perform, h]
  rfl

theorem run_perform_of_error {e : Error} (h : op.apply args = .error e) (m : Machine) :
    (op.perform args).run m = .error (.error e) m := by
  rw [perform, h]
  rfl

end Primitive

namespace Evaluator

variable {ev : Evaluator} {f : FrameId} {m : Machine} {op : Primitive}

theorem specialForm?_head (op : Primitive) : specialForm? op.head = none := by
  simp only [specialForm?, Primitive.head, (Builtin.symbol_spec (.primitive op)).1]

theorem step_head (hlookup : m.heap.lookup f (Builtin.symbol (.primitive op)) = .ok op.head) :
    (ev.step op.head f).run m = .ok op.head m := by
  simp only [step, Primitive.head, (Builtin.symbol_spec (.primitive op)).2]
  rw [if_neg Bool.false_ne_true, Run.run_lookup, hlookup]
  rfl

theorem apply_head (op : Primitive) (args : List Value) :
    ev.apply op.head args = op.perform args := by
  simp only [apply, Primitive.head, (Builtin.symbol_spec (.primitive op)).1]
  rfl

/-- Looking up the head and evaluating the operands comes to nothing but the arguments. -/
theorem call_of_quotes {args : List Value} {operands : Value}
    (hlookup : m.heap.lookup f (Builtin.symbol (.primitive op)) = .ok op.head)
    (hargs : Value.Quotes args operands) :
    (ev.step.call f op.head operands).run m = (op.perform args).run m := by
  simp only [call, specialForm?_head]
  rw [Run.run_bind_of_ok (step_head hlookup), Run.run_bind_of_ok (operands_of_quotes hargs),
    apply_head]

theorem step_of_quotes {args : List Value} {operands : Value}
    (hlookup : m.heap.lookup f (Builtin.symbol (.primitive op)) = .ok op.head)
    (hargs : Value.Quotes args operands) (i : Serial) :
    (ev.step.step (.pair i op.head operands) f).run m =
      (Run.inContext (.pair i op.head operands) (op.perform args)).run m := by
  simp only [step, Run.inContext, EStateM.run_adaptExcept]
  rw [← call_of_quotes hlookup hargs]

end Evaluator

/-- Two levels are enough for a call on quoted operands, and one for a quotation. -/
theorem Limits.exists_levels {limits : Limits} {fuel : Nat}
    (hlimit : ∀ k, limits.eval = some k → 2 ≤ k) (hfuel : limits.eval = none → 2 ≤ fuel) :
    ∃ n, limits.levels fuel = n + 2 := by
  have hlevels : 2 ≤ limits.levels fuel := by
    unfold levels
    cases h : limits.eval with
    | none => exact hfuel h
    | some k => exact hlimit k h
  exact ⟨limits.levels fuel - 2, by omega⟩

/-- Evaluating the call from the machine is applying the primitive to the arguments. -/
structure Primitive.CalledDirectly (op : Primitive) (args : List Value) (call : Value)
    (evaluation : Run Value) (m : Machine) : Prop where
  /-- The value is the one that the primitive makes, with pairs from the counter of the machine;
  nothing else is changed, and nothing is written or reported. -/
  value : ∀ make, op.apply args = .ok make → evaluation.run m =
    .ok (make.run m.serial).1 { m with serial := (make.run m.serial).2 }
  /-- Made at any other time, the value is equal. -/
  alike : ∀ make, op.apply args = .ok make →
    ∀ n, (make.run m.serial).1.equal (make.run n).1 = true
  /-- A type error has the call noted on it, and is otherwise the same. -/
  type_error : ∀ fault context, op.apply args = .error (.type fault context) →
    context = none ∧ evaluation.run m = .error (.error (.type fault (some call))) m ∧
    (Error.type fault (some call)).message =
      (Error.type fault context).message ++ "\n  Context: while evaluating: " ++ call.print
  /-- Any other error is the same. -/
  error : ∀ e, op.apply args = .error e → (∀ fault context, e ≠ .type fault context) →
    evaluation.run m = .error (.error e) m

/-- A call that is noted comes last in the text. -/
theorem Error.message_noted (fault : TypeFault) (call : Value) :
    (type fault (some call)).message =
      (type fault none).message ++ "\n  Context: while evaluating: " ++ call.print := by
  rw [message_type, message_type, typeText_some, typeText_none, String.append_assoc,
    String.append_assoc, String.append_assoc]

theorem Primitive.calledDirectly_of_run {op : Primitive} {args : List Value} {call : Value}
    {evaluation : Run Value} {m : Machine}
    (h : evaluation.run m = (Run.inContext call (op.perform args)).run m) :
    op.CalledDirectly args call evaluation m where
  value make hmake := by
    rw [h, Run.inContext, EStateM.run_adaptExcept, run_perform_of_ok hmake]
  alike make hmake n := op.makesAlike_apply args make hmake _ n
  type_error fault context herror := by
    have hcontext := context_of_apply herror
    subst hcontext
    refine ⟨rfl, ?_, ?_⟩
    · rw [h]
      refine Run.run_inContext_error_iff.mpr ⟨_, run_perform_of_error herror m, ?_⟩
      rw [Stop.inContext, Error.inContext_type_none]
    · exact Error.message_noted fault call
  error e herror hne := by
    rw [h]
    refine Run.run_inContext_error_iff.mpr ⟨_, run_perform_of_error herror m, ?_⟩
    rw [Stop.inContext, Error.inContext_of_ne_type hne]

/-- Where the symbol of a primitive is bound to itself, a call of it on quoted arguments is the
primitive applied to these arguments. So a call of `LIST` on quoted arguments is equal to the
quoted list of them. -/
theorem call_on_quotes_applies_directly {limits : Limits} {fuel : Nat}
    (hlimit : ∀ k, limits.eval = some k → 2 ≤ k) (hfuel : limits.eval = none → 2 ≤ fuel)
    {args : List Value} {operands : Value} (hargs : Value.Quotes args operands) (i : Serial)
    {f : FrameId} {m : Machine} {op : Primitive}
    (hlookup : m.heap.lookup f (Builtin.symbol (.primitive op)) = .ok op.head) :
    op.CalledDirectly args (.pair i op.head operands)
      (evaluate limits fuel (.pair i op.head operands) f) m ∧
    (op = .list → ∃ made m₁,
      (evaluate limits fuel (.pair i op.head operands) f).run m = .ok made m₁ ∧
      ∀ j k list, list.elements = args → list.ending = .nil → ∀ f' m',
        (evaluate limits fuel (.pair j .quoteHead (.pair k list .nil)) f').run m' = .ok list m' ∧
        made.equal list = true) := by
  obtain ⟨n, hlevels⟩ := Limits.exists_levels hlimit hfuel
  have hdirect : op.CalledDirectly args (.pair i op.head operands)
      (evaluate limits fuel (.pair i op.head operands) f) m := by
    apply Primitive.calledDirectly_of_run
    rw [evaluate_eq_eval, hlevels]
    exact Evaluator.step_of_quotes hlookup hargs i
  refine ⟨hdirect, ?_⟩
  rintro rfl
  refine ⟨_, _, hdirect.value _ rfl, fun j k list helements hending f' m' => ⟨?_, ?_⟩⟩
  · rw [evaluate_eq_eval, hlevels]
    exact Evaluator.step_quote j k list .nil
  · apply Value.equal_of_elements
    · rw [Value.elements_ofList, helements]
      exact List.append_nil args
    · rw [Value.ending_ofList, hending]
      rfl

/-- In the global frame and with no more than two levels, a sum of a number and a symbol is the error
of the sum with the call noted on it, and the list of the two is equal to the quoted one. -/
theorem call_on_quotes_applies_directly_global :
    let m : Machine := { Machine.initial none with serial := 20 }
    let x : Value := .symbol (.ofName "X")
    let quoted (i : Serial) (v : Value) : Value := .pair i .quoteHead (.pair (i + 1) v .nil)
    let operands : Value := .pair 4 (quoted 0 (.number 1)) (.pair 5 (quoted 2 x) .nil)
    let sum : Value := .pair 6 Primitive.add.head operands
    let list : Value := .pair 7 Primitive.list.head operands
    let listed : Value := .pair 8 (.number 1) (.pair 9 x .nil)
    let made : Value := .pair 21 (.number 1) (.pair 20 x .nil)
    let ev := evaluate ⟨none, some 2⟩ 0
    m.heap.lookup 0 (Builtin.symbol (.primitive .add)) = .ok Primitive.add.head ∧
    m.heap.lookup 0 (Builtin.symbol (.primitive .list)) = .ok Primitive.list.head ∧
    (ev sum 0).run m = .error (.error (.type (.numeric .add x) (some sum))) m ∧
    (ev list 0).run m = .ok made { m with serial := 22 } ∧
    (ev (.pair 10 .quoteHead (.pair 11 listed .nil)) 0).run m = .ok listed m ∧
    made.equal listed = true := by
  intro m x quoted operands sum list listed made ev
  have hadd : m.heap.lookup 0 (Builtin.symbol (.primitive .add)) = .ok Primitive.add.head := by
    decide +kernel
  have hlist : m.heap.lookup 0 (Builtin.symbol (.primitive .list)) = .ok Primitive.list.head := by
    decide +kernel
  have hoperands : Value.Quotes [.number 1, x] operands :=
    .cons 4 0 1 (.number 1) (.cons 5 2 3 x .nil)
  have hlimit : ∀ k, (⟨none, some 2⟩ : Limits).eval = some k → 2 ≤ k := by
    rintro k ⟨⟩
    exact Nat.le_refl 2
  have hfuel : (⟨none, some 2⟩ : Limits).eval = none → 2 ≤ 0 := nofun
  obtain ⟨hsum, -⟩ := call_on_quotes_applies_directly hlimit hfuel hoperands 6 hadd
  obtain ⟨hcall, hquoted⟩ := call_on_quotes_applies_directly hlimit hfuel hoperands 7 hlist
  obtain ⟨v, m₁, hv, hequal⟩ := hquoted rfl
  have hmade : (ev list 0).run m = .ok made { m with serial := 22 } := hcall.value _ rfl
  obtain ⟨hquote, hlisted⟩ := hequal 10 11 listed rfl rfl 0 m
  cases hv.symm.trans hmade
  exact ⟨hadd, hlist, (hsum.type_error _ _ rfl).2.1, hmade, hquote, hlisted⟩

end Lisp
