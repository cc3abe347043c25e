import Lisp.Eval

/-! # The errors that a step raises

Looking up a name, taking a list apart, binding parameters and applying a primitive raise errors
of their own kinds: never one of depth, of reading or of the sink, and never one that has a
context already. -/

namespace Lisp

/-- An error that a rule of the language raises by itself, without a context yet. -/
def Error.isPlain : Error → Bool
  | unbound _ | notAList _ | arity .. | type _ none | divisionByZero | unknownOperator _ => true
  | unreadable _ | type _ (some _) | tooDeep _ | sinkClosed => false

/-- If the result is an error, it is a plain one. -/
def PlainErrors {α : Type} (x : Except Error α) : Prop :=
  ∀ e, x = .error e → e.isPlain = true

section Except

variable {α β : Type}

theorem plainErrors_ok (a : α) : PlainErrors (.ok a) := by
  intro e h
  cases h

theorem plainErrors_error {e : Error} (he : e.isPlain = true) :
    PlainErrors (.error e : Except Error α) := by
  intro e' h
  cases h
  exact he

theorem PlainErrors.bind {x : Except Error α} {k : α → Except Error β} (hx : PlainErrors x)
    (hk : ∀ a, PlainErrors (k a)) : PlainErrors (x >>= k) := by
  cases x with
  | ok a => exact hk a
  | error e => exact plainErrors_error (hx e rfl)

theorem PlainErrors.map {x : Except Error α} (hx : PlainErrors x) (g : α → β) :
    PlainErrors (x.map g) := by
  cases x with
  | ok a => exact plainErrors_ok (g a)
  | error e => exact plainErrors_error (hx e rfl)

theorem plainErrors_mapM {k : α → Except Error β} (hk : ∀ a, PlainErrors (k a)) (as : List α) :
    PlainErrors (as.mapM k) := by
  induction as with
  | nil => exact plainErrors_ok []
  | cons a as ih =>
      rw [List.mapM_cons]
      exact (hk a).bind fun b => ih.bind fun bs => plainErrors_ok (b :: bs)

theorem plainErrors_foldlM {k : β → α → Except Error β} (hk : ∀ b a, PlainErrors (k b a))
    (as : List α) (b : β) : PlainErrors (as.foldlM k b) := by
  induction as generalizing b with
  | nil => exact plainErrors_ok b
  | cons a as ih =>
      rw [List.foldlM_cons]
      exact (hk b a).bind ih

end Except

/-! ## Values, frames and parameters -/

theorem Value.first_plainErrors (v : Value) : PlainErrors v.first := by
  cases v with
  | pair i a d => exact plainErrors_ok a
  | number n => exact plainErrors_error rfl
  | symbol s => exact plainErrors_error rfl
  | closure i params body frame => exact plainErrors_error rfl

theorem Value.rest_plainErrors (v : Value) : PlainErrors v.rest := by
  cases v with
  | pair i a d => exact plainErrors_ok d
  | number n => exact plainErrors_error rfl
  | symbol s => exact plainErrors_error rfl
  | closure i params body frame => exact plainErrors_error rfl

theorem Heap.lookup_plainErrors (h : Heap) (f : FrameId) (x : Symbol) :
    PlainErrors (h.lookup f x) := by
  rw [Heap.lookup]
  split
  · exact plainErrors_ok _
  · exact plainErrors_error rfl

theorem ParameterMatch.ofParams_plainErrors (params : Value) (args : List Value) :
    PlainErrors (ofParams params args) := by
  fun_induction ofParams params args with
  | case1 => exact plainErrors_ok _
  | case2 i x params v vs ih => exact ih.map (cons x v)
  | case3 => exact plainErrors_error rfl
  | case4 => exact plainErrors_ok _
  | case5 => exact plainErrors_error rfl

theorem Frame.ofParams_plainErrors (parent : FrameId) (params : Value) (args : List Value) :
    PlainErrors (Frame.ofParams parent params args) :=
  (ParameterMatch.ofParams_plainErrors params args).map _

/-! ## Primitives -/

namespace Primitive

theorem number_plainErrors (op : Primitive) (v : Value) : PlainErrors (op.number v) := by
  cases v with
  | number n => exact plainErrors_ok n
  | symbol s => exact plainErrors_error rfl
  | pair i a d => exact plainErrors_error rfl
  | closure i params body frame => exact plainErrors_error rfl

theorem numbers_plainErrors (op : Primitive) (args : List Value) : PlainErrors (op.numbers args) :=
  plainErrors_mapM op.number_plainErrors args

theorem divideBy_plainErrors (n : Int64) (v : Value) : PlainErrors (divideBy n v) := by
  refine (number_plainErrors div v).bind fun d => ?_
  split
  · exact plainErrors_error rfl
  · exact plainErrors_ok _

theorem quotient_plainErrors (args : List Value) : PlainErrors (quotient args) := by
  unfold quotient
  split
  · exact plainErrors_ok 1
  · exact divideBy_plainErrors 1 _
  · exact (number_plainErrors div _).bind (plainErrors_foldlM divideBy_plainErrors _)

theorem compare_plainErrors (op : Primitive) (holds : Int64 → Int64 → Bool) (v w : Value) :
    PlainErrors (op.compare holds v w) :=
  (op.number_plainErrors v).bind fun _ => (op.number_plainErrors w).bind fun _ => plainErrors_ok _

theorem answer_plainErrors (op : Primitive) (args : List Value) : PlainErrors (op.answer args) := by
  unfold answer
  split
  · exact (Value.first_plainErrors _).map _
  · exact (Value.rest_plainErrors _).map _
  · exact plainErrors_ok _
  · exact plainErrors_ok _
  · exact plainErrors_ok _
  · exact plainErrors_ok _
  · exact plainErrors_ok _
  · exact (numbers_plainErrors _ _).map _
  · exact (numbers_plainErrors _ _).map _
  · exact (numbers_plainErrors _ _).map _
  · exact (quotient_plainErrors _).map _
  · exact (compare_plainErrors _ _ _ _).map _
  · exact (compare_plainErrors _ _ _ _).map _
  · exact plainErrors_error rfl

theorem apply_plainErrors (op : Primitive) (args : List Value) : PlainErrors (op.apply args) := by
  refine PlainErrors.bind ?_ fun _ => op.answer_plainErrors args
  rw [Arity.check]
  split
  · exact plainErrors_ok ()
  · exact plainErrors_error rfl

end Primitive

end Lisp
