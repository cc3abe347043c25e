import Lisp.Interpreter
import Lisp.Proofs.Heap
import Lisp.Proofs.Evaluation.Output

/-! # Reports as a log of the global frame

Bindings are reported in frames without parent and made in whatever frame is current. In a session
the two come to the same: the global frame is the only one without parent, since a call works in a
frame with one, and nothing can fail between a report and the binding that it is about. So whoever
reads the reports knows what every name of the global frame is bound to. -/

namespace Lisp

/-! ## Reading the reports -/

/-- The name that an event reports as bound, with the printed form of its value. -/
def Event.binding? : Event → Option (Symbol × String)
  | setGlobal x v => some (x, v.print)
  | defunGlobal x _ => some (x, "#<FUNCTION>")
  | applyClosure _ _ => none

/-- Names and the printed forms of what they are bound to. -/
abbrev Log := Symbol → Option String

namespace Log

/-- `NIL`, `TRUE` and every operator, bound to themselves. -/
def predefined : Log :=
  fun x => if x ∈ Symbol.predefined then some x.name else none

def record (log : Log) (e : Event) : Log :=
  match e.binding? with
  | some (x, text) => fun y => if y = x then some text else log y
  | none => log

/-- Events in order, over the names known from the start. -/
def replay (events : List Event) : Log :=
  events.foldl record predefined

theorem record_of_none {e : Event} (he : e.binding? = none) (log : Log) : log.record e = log := by
  rw [record, he]

theorem record_of_some {e : Event} {x : Symbol} {text : String} (he : e.binding? = some (x, text))
    (log : Log) (y : Symbol) : log.record e y = if y = x then some text else log y := by
  rw [record, he]

theorem replay_push (events : Array Event) (e : Event) :
    replay (events.push e).toList = (replay events.toList).record e := by
  rw [replay, Array.toList_push, List.foldl_append, List.foldl_cons, List.foldl_nil, replay]

end Log

/-! ## Machines that are logged -/

/-- The global frame is there, is the only one without parent, and binds what the reports say. -/
structure Machine.Logged (m : Machine) : Prop where
  global_lt : Interpreter.global < m.heap.frames.size
  root_iff : ∀ f < m.heap.frames.size, (m.heap.parent? f = none ↔ f = Interpreter.global)
  log : ∀ x, Log.replay m.events.toList x = (m.heap.local? Interpreter.global x).map Value.print

namespace Machine.Logged

variable {m m' : Machine} {f : FrameId}

/-- Only heap and reports matter. -/
theorem congr (hm : m.Logged) (hheap : m'.heap = m.heap)
    (hevents : Log.replay m'.events.toList = Log.replay m.events.toList) : m'.Logged := by
  refine ⟨?_, ?_, ?_⟩
  · rw [hheap]
    exact hm.global_lt
  · rw [hheap]
    exact hm.root_iff
  · rw [hheap, hevents]
    exact hm.log

/-- A binding is reported if and only if it is made in the global frame. -/
theorem define (hm : m.Logged) (hf : f < m.heap.frames.size) {e : Event} {x : Symbol} {v : Value}
    (he : e.binding? = some (x, v.print)) (hheap : m'.heap = m.heap.define f x v)
    (hevents : m'.events = if (m.heap.parent? f).isNone then m.events.push e else m.events) :
    m'.Logged := by
  refine ⟨?_, fun g hg => ?_, fun y => ?_⟩
  · rw [hheap, Heap.size_define]
    exact hm.global_lt
  · rw [hheap, Heap.size_define] at hg
    rw [hheap, Heap.parent?_define]
    exact hm.root_iff g hg
  · by_cases hglobal : f = Interpreter.global
    · have hroot : m.heap.parent? f = none := (hm.root_iff f hf).mpr hglobal
      subst hglobal
      rw [hevents, hroot, Option.isNone_none, if_pos rfl, Log.replay_push, Log.record_of_some he,
        hheap, Heap.local?_define x y v hf, hm.log y]
      split <;> rfl
    · have hparent : (m.heap.parent? f).isNone = false := by
        rw [Option.isNone_eq_false_iff, ← Option.ne_none_iff_isSome]
        exact fun hnone => hglobal ((hm.root_iff f hf).mp hnone)
      have hframe : m'.heap.frame? Interpreter.global = m.heap.frame? Interpreter.global := by
        rw [hheap, Heap.frame?_define, if_neg hglobal]
      rw [hevents, hparent, Heap.local?_congr y hframe]
      exact hm.log y

/-- The frame of a call has a parent, whatever frame the function was made in. -/
theorem push (hm : m.Logged) {frame : Frame} (hframe : frame.parent.isSome)
    (hheap : m'.heap = (m.heap.push frame).2)
    (hevents : Log.replay m'.events.toList = Log.replay m.events.toList) : m'.Logged := by
  have hglobal : (m.heap.push frame).2.frame? Interpreter.global =
      m.heap.frame? Interpreter.global := Heap.frame?_push_of_lt frame hm.global_lt
  refine ⟨?_, fun g hg => ?_, fun x => ?_⟩
  · rw [hheap, Heap.size_push]
    exact Nat.lt_succ_of_lt hm.global_lt
  · rw [hheap, Heap.size_push] at hg
    rw [hheap]
    rcases Nat.lt_succ_iff_lt_or_eq.mp hg with hlt | rfl
    · rw [Heap.parent?_congr (Heap.frame?_push_of_lt frame hlt)]
      exact hm.root_iff g hlt
    · rw [Heap.parent?_push_size]
      constructor
      · intro hnone
        simp [hnone] at hframe
      · intro hsize
        exact absurd hsize (Nat.ne_of_gt hm.global_lt)
  · rw [hevents, hheap, Heap.local?_congr x hglobal]
    exact hm.log x

end Machine.Logged

/-- No frame is lost, and if the first machine is logged and has the frame, so is the second. -/
structure Machine.KeepsLog (f : FrameId) (m m' : Machine) : Prop where
  size_le : m.heap.frames.size ≤ m'.heap.frames.size
  logged : f < m.heap.frames.size → m.Logged → m'.Logged

instance (f : FrameId) : IsPreorder Machine (Machine.KeepsLog f) where
  refl _ := ⟨Nat.le_refl _, fun _ hm => hm⟩
  trans _ _ _ h₁ h₂ := ⟨Nat.le_trans h₁.size_le h₂.size_le, fun hf hm =>
    h₂.logged (Nat.lt_of_lt_of_le hf h₁.size_le) (h₁.logged hf hm)⟩

/-! ## Evaluation -/

namespace Run

variable {f : FrameId}

theorem fresh_keepsLog {α : Type} (make : Fresh α) : Respects (Machine.KeepsLog f) (fresh make) :=
  fun _ => ⟨Nat.le_refl _, fun _ hm => hm.congr rfl rfl⟩

theorem write_keepsLog (text : String) : Respects (Machine.KeepsLog f) (write text) := by
  intro m
  rw [after_write]
  exact ⟨Nat.le_refl _, fun _ hm => hm.congr rfl rfl⟩

/-- A report in a frame without parent, and then the binding that it is about. -/
theorem report_keepsLog {e : Event} (x : Symbol) (text : String) {c : Run Value}
    (he : e.binding? = some (x, text))
    (hc : ∀ m, ∃ v, v.print = text ∧ (c.after m).heap = m.heap.define f x v ∧
      (c.after m).events = m.events) :
    Respects (Machine.KeepsLog f) (do
      if ← isRoot f then emit e
      c) := by
  intro m
  let reported : Machine :=
    { m with events := if (m.heap.parent? f).isNone then m.events.push e else m.events }
  have hafter : (do
      if ← isRoot f then emit e
      c : Run Value).after m = c.after reported := by
    rw [after_bind_of_ok (run_isRoot f m)]
    simp only [reported]
    cases (m.heap.parent? f).isNone <;> rfl
  obtain ⟨v, rfl, hheap, hevents⟩ := hc reported
  rw [hafter]
  refine ⟨?_, fun hf hm => hm.define hf he hheap hevents⟩
  rw [hheap, Heap.size_define]

end Run

theorem Frame.parent_ofBindings (f : FrameId) (bs : Bindings) :
    (ofBindings f bs).parent = some f := by
  have hfold : ∀ frame : Frame,
      (bs.foldl (fun frame b => frame.define b.1 b.2) frame).parent = frame.parent := by
    induction bs with
    | nil => exact fun _ => rfl
    | cons b bs ih => exact fun frame => ih (frame.define b.1 b.2)
  exact hfold _

theorem Frame.parent_ofParams {f : FrameId} {params : Value} {args : List Value}
    {make : Fresh Frame} (h : ofParams f params args = .ok make) (n : Serial) :
    (make.run n).1.parent = some f := by
  rw [ofParams] at h
  cases hmatch : ParameterMatch.ofParams params args with
  | error e => simp [hmatch, Except.map] at h
  | ok pm =>
      simp only [hmatch, Except.map, Except.ok.injEq] at h
      subst h
      exact parent_ofBindings f _

namespace Evaluator

def KeepsLog (ev : Evaluator) : Prop :=
  ∀ e f, Run.Respects (Machine.KeepsLog f) (ev e f)

theorem openFrame_keepsLog (params : Value) (frame : FrameId) (args : List Value) (f : FrameId) :
    Run.Respects (Machine.KeepsLog f) (openFrame params frame args) := by
  intro m
  have hrecord : Log.replay (m.events.push (.applyClosure params args.length)).toList =
      Log.replay m.events.toList := by rw [Log.replay_push, Log.record_of_none rfl]
  rw [openFrame, Run.after_bind_of_ok (Run.run_emit _ m), Run.after, Run.run_extend]
  cases hmake : Frame.ofParams frame params args with
  | error e => exact ⟨Nat.le_refl _, fun _ hm => hm.congr rfl hrecord⟩
  | ok make =>
      have hparent := Frame.parent_ofParams hmake m.serial
      refine ⟨?_, fun _ hm => hm.push (by rw [hparent]; rfl) rfl hrecord⟩
      exact Nat.le_of_lt (by simp)

variable {ev : Evaluator}

theorem apply_keepsLog (hev : ev.KeepsLog) (f : FrameId) (function : Value) (args : List Value) :
    Run.Respects (Machine.KeepsLog f) (ev.apply function args) := by
  cases function with
  | closure i params body frame =>
      intro m
      have hopened := openFrame_keepsLog params frame args f m
      rw [apply_closure]
      cases hopen : (openFrame params frame args).run m with
      | error s m₁ =>
          rw [Run.after_of_error hopen] at hopened
          rw [Run.after_of_error (Run.run_bind_of_error hopen)]
          exact hopened
      | ok g m₁ =>
          rw [Run.after_of_ok hopen] at hopened
          rw [Run.after_bind_of_ok hopen]
          -- the body works in the new frame, not in `f`
          obtain ⟨rfl, new, hheap⟩ := openFrame_ok hopen
          have hbody := hev body m.heap.frames.size m₁
          have hnew : m.heap.frames.size < m₁.heap.frames.size := by simp [hheap]
          exact ⟨Nat.le_trans hopened.size_le hbody.size_le, fun hf hm =>
            hbody.logged hnew (hopened.logged hf hm)⟩
  | symbol s =>
      simp only [apply]
      split
      · exact (Run.respects_ofExcept _).bind fun make => Run.fresh_keepsLog make
      · exact Run.respects_fail _
  | number n => exact Run.respects_fail _
  | pair i first rest => exact Run.respects_fail _

theorem set_keepsLog (hev : ev.KeepsLog) (f : FrameId) (args : Value) :
    Run.Respects (Machine.KeepsLog f) (ev.set f args) := by
  refine (Run.respects_ofExcept _).bind fun target => respects_target_bind fun x _ => ?_
  refine (Run.respects_ofExcept _).bind fun d => (Run.respects_ofExcept _).bind fun a => ?_
  refine (hev a f).bind fun v => Run.report_keepsLog x v.print rfl fun m => ?_
  exact ⟨v, rfl, rfl, rfl⟩

theorem defun_keepsLog (f : FrameId) (args : Value) :
    Run.Respects (Machine.KeepsLog f) (defun f args) := by
  refine (Run.respects_ofExcept _).bind fun target => respects_target_bind fun x _ => ?_
  refine (Run.respects_ofExcept _).bind fun d => (Run.respects_ofExcept _).bind fun params => ?_
  refine (Run.respects_ofExcept _).bind fun d' => (Run.respects_ofExcept _).bind fun body => ?_
  refine Run.report_keepsLog x "#<FUNCTION>" rfl fun m => ?_
  exact ⟨.closure m.serial params body f, rfl, rfl, rfl⟩

theorem special_keepsLog (hev : ev.KeepsLog) (f : FrameId) (args : Value) (form : SpecialForm) :
    Run.Respects (Machine.KeepsLog f) (ev.special f args form) := by
  cases form with
  | quote => exact Run.respects_ofExcept _
  | set => exact set_keepsLog hev f args
  | defun => exact defun_keepsLog f args
  | cond => exact cond_respects fun clause _ a _ => hev a f
  | print => exact print_respects Run.write_keepsLog fun a _ => hev a f

theorem step_keepsLog (hev : ev.KeepsLog) : ev.step.KeepsLog := by
  intro e f
  cases e with
  | number n => exact Run.respects_pure _
  | closure i params body frame => exact Run.respects_pure _
  | symbol s =>
      simp only [step]
      split
      · exact Run.respects_pure _
      · exact Run.respects_lookup f s
  | pair i head args =>
      refine Run.Respects.inContext ?_ _
      rw [call]
      split
      · exact special_keepsLog hev f args _
      · refine (hev head f).bind fun function => ?_
        refine (operands_respects fun a _ => hev a f).bind fun vs => ?_
        exact apply_keepsLog hev f function vs

end Evaluator

theorem eval_keepsLog (exhausted : Stop) (levels : Nat) : (eval exhausted levels).KeepsLog := by
  induction levels with
  | zero => exact fun e f m => refl_of _ m
  | succ n ih => exact Evaluator.step_keepsLog ih

theorem evaluate_keepsLog (limits : Limits) (fuel : Nat) : (evaluate limits fuel).KeepsLog := by
  unfold evaluate
  split
  · exact eval_keepsLog _ _
  · exact eval_keepsLog _ _

/-! ## Sessions -/

theorem Value.print_symbol (s : Symbol) : (symbol s).print = s.name := by
  have hwrite : (symbol s).write false [] = s.name.toList ++ [] := rfl
  rw [print, hwrite, List.append_nil, String.ofList_toList]

theorem Frame.lookup?_global (x : Symbol) :
    Frame.global.lookup? x = if x ∈ Symbol.predefined then some (.symbol x) else none := by
  have hfold : ∀ (xs : List Symbol) (frame : Frame),
      (xs.foldl (fun frame s => frame.define s (.symbol s)) frame).lookup? x =
        if x ∈ xs then some (.symbol x) else frame.lookup? x := by
    intro xs
    induction xs with
    | nil => exact fun frame => rfl
    | cons y ys ih =>
        intro frame
        rw [List.foldl_cons, ih, Frame.lookup?_define]
        by_cases hx : x = y <;> simp [hx]
  exact hfold Symbol.predefined (.empty none)

theorem Machine.logged_initial (room : Option Nat) : (Machine.initial room).Logged := by
  have hheap : (Machine.initial room).heap = (Heap.empty.push .global).2 := rfl
  have hevents : (Machine.initial room).events.toList = [] := rfl
  have hparent : Frame.global.parent = none := rfl
  refine ⟨?_, fun f hf => ?_, fun x => ?_⟩
  · exact Nat.zero_lt_one
  · obtain rfl : f = Interpreter.global := Nat.lt_one_iff.mp hf
    exact iff_of_true hparent rfl
  · have hlocal : (Heap.empty.push .global).2.local? Interpreter.global x =
        Frame.global.lookup? x := Heap.local?_push_size (h := .empty) .global x
    rw [hheap, hlocal, Frame.lookup?_global, hevents, Log.replay, List.foldl_nil, Log.predefined]
    by_cases hx : x ∈ Symbol.predefined
    · rw [if_pos hx, if_pos hx, Option.map_some, Value.print_symbol]
    · rw [if_neg hx, if_neg hx, Option.map_none]

namespace Interpreter

inductive Call
  | evalFirst (source : String)
  | evalAll (source : String)
  | evaluate (d : Datum)
  /-- An expression made earlier, which may hold functions. -/
  | evaluateValue (e : Value)
  /-- From here on output goes to another sink. A text that is not accepted ends the call that
  wrote it, so this covers sinks that fail only now and then. -/
  | redirect (k : Sink)

def perform (i : Interpreter) : Call → Run Value
  | .evalFirst source => i.evalFirst source
  | .evalAll source => i.evalAll source
  | .evaluate d => i.evaluate d
  | .evaluateValue e => Lisp.evaluate i.limits i.fuel e global
  | .redirect k => do
    modify fun m => m.withSink k
    return .nil

/-- The machine after calls in order, each with a value or without. -/
def afterCalls (i : Interpreter) (calls : List Call) (m : Machine) : Machine :=
  calls.foldl (fun m c => (i.perform c).after m) m

theorem evaluate_keepsLog (i : Interpreter) (d : Datum) :
    Run.Respects (Machine.KeepsLog global) (i.evaluate d) :=
  (Run.fresh_keepsLog _).bind fun e => Lisp.evaluate_keepsLog i.limits i.fuel e global

theorem evaluate_ofRead_keepsLog (i : Interpreter) (outcome : Except ReadError Datum) :
    Run.Respects (Machine.KeepsLog global) (do i.evaluate (← Run.ofRead outcome)) := by
  cases outcome with
  | ok d => exact i.evaluate_keepsLog d
  | error e => exact Run.respects_fail _

theorem evalOutcomes_keepsLog (i : Interpreter) (last : Value)
    (outcomes : List (Except ReadError Datum)) :
    Run.Respects (Machine.KeepsLog global) (i.evalOutcomes last outcomes) := by
  induction outcomes generalizing last with
  | nil => exact Run.respects_pure last
  | cons outcome rest ih =>
      rw [evalOutcomes, ← bind_assoc]
      exact (i.evaluate_ofRead_keepsLog outcome).bind fun v => ih v

theorem perform_keepsLog (i : Interpreter) (c : Call) :
    Run.Respects (Machine.KeepsLog global) (i.perform c) := by
  cases c with
  | evalFirst source => exact i.evaluate_ofRead_keepsLog _
  | evalAll source => exact i.evalOutcomes_keepsLog _ _
  | evaluate d => exact i.evaluate_keepsLog d
  | evaluateValue e => exact Lisp.evaluate_keepsLog i.limits i.fuel e global
  | redirect k => exact fun m => ⟨Nat.le_refl _, fun _ hm => hm.congr rfl rfl⟩

theorem afterCalls_logged (i : Interpreter) (calls : List Call) {m : Machine} (hm : m.Logged) :
    (i.afterCalls calls m).Logged := by
  induction calls generalizing m with
  | nil => exact hm
  | cons c calls ih => exact ih ((i.perform_keepsLog c m).logged hm.global_lt hm)

/-- Whatever is asked of a fresh interpreter, with values or with errors, under any limits and into
any sinks: the events replayed over the names known from the start are the names of the global
frame, each with the printed form of what it is bound to. -/
theorem replay_events_eq_global (i : Interpreter) (room : Option Nat) (calls : List Call)
    (x : Symbol) :
    let m := i.afterCalls calls (.initial room)
    Log.replay m.events.toList x = (m.heap.local? global x).map Value.print :=
  (i.afterCalls_logged calls (Machine.logged_initial room)).log x

/-- A function binds in its own frame, and a form that fails binds nothing. -/
example :
    let source := "(SET X 5) (DEFUN F (A) (SET X A)) (F 7) (SET X (CAR 1))"
    let m := afterCalls ⟨.bounded, 0⟩ [.evalAll source] (.initial none)
    let log := Log.replay m.events.toList
    log (.ofName "X") = some "5" ∧ log (.ofName "F") = some "#<FUNCTION>" ∧
      log (.ofName "A") = none ∧ log .nil = some "NIL" := by decide +kernel

end Interpreter

end Lisp
