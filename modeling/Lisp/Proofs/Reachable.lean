import Lisp.Interpreter
import Lisp.Proofs.Value.Shape
import Lisp.Proofs.Evaluation.Output
import Lisp.Proofs.Correspondence.Evaluation

/-! # Machines that can be reached

A machine is reached from an empty one by making values and frames, binding names, looking them up
and evaluating, each time with values that are at hand. Such a machine is sound: it corresponds to
itself, frame by frame. So every serial number in it was given out, to one object, and every
function and frame refers to frames that are there. -/

namespace Lisp

/-! ## What can be done with a machine -/

/-- What can be done with a machine and the values at hand. An operation without a value of its own
gives `NIL`. -/
inductive Operation (m : Machine) (held : List Value) : Run Value → Prop
  | datum (d : Datum) : Operation m held (Run.fresh (Value.ofDatum d))
  | list {items : List Value} {tail : Value} : (∀ v ∈ items, v ∈ held) → tail ∈ held →
      Operation m held (Run.fresh (Value.ofList items tail))
  | function {params body : Value} {f : FrameId} : params ∈ held → body ∈ held →
      f < m.heap.frames.size → Operation m held (Run.fresh (Value.function params body f))
  | primitive (op : Primitive) {args : List Value} : (∀ v ∈ args, v ∈ held) →
      Operation m held (do Run.fresh (← Run.ofExcept (op.apply args)))
  | root : Operation m held (do let _ ← Run.push (.empty none); return .nil)
  | global : Operation m held (do let _ ← Run.push .global; return .nil)
  | child {f : FrameId} : f < m.heap.frames.size →
      Operation m held (do let _ ← Run.push (.empty (some f)); return .nil)
  | extend {f : FrameId} {params : Value} {args : List Value} : f < m.heap.frames.size →
      params ∈ held → (∀ v ∈ args, v ∈ held) →
      Operation m held (do let _ ← Run.extend f params args; return .nil)
  | lookup {f : FrameId} (x : Symbol) : f < m.heap.frames.size → Operation m held (Run.lookup f x)
  | define {f : FrameId} (x : Symbol) {v : Value} : f < m.heap.frames.size → v ∈ held →
      Operation m held (do Run.define f x v; return .nil)
  | set {f : FrameId} (x : Symbol) {v : Value} : f < m.heap.frames.size → v ∈ held →
      Operation m held (do Run.set f x v; return .nil)
  | evaluate (limits : Limits) (fuel : Nat) {e : Value} {f : FrameId} : e ∈ held →
      f < m.heap.frames.size → Operation m held (evaluate limits fuel e f)

def Run.given (c : Run Value) (m : Machine) : List Value :=
  match c.run m with
  | .ok v _ => [v]
  | .error _ _ => []

/-- The machine can be reached, and the values are at hand then. Operations may fail, values may be
taken apart, and output may go to another sink at any time. -/
inductive Reachable : Machine → List Value → Prop
  | blank (room : Option Nat) : Reachable (.blank room) []
  | perform {m : Machine} {held : List Value} {c : Run Value} : Reachable m held →
      Operation m held c → Reachable (c.after m) (c.given m ++ held)
  | part {m : Machine} {held : List Value} {v w : Value} : Reachable m held → v ∈ held →
      v.Contains w → Reachable m (w :: held)
  | redirect {m : Machine} {held : List Value} (k : Sink) : Reachable m held →
      Reachable (m.withSink k) held

/-! ## A machine and itself -/

namespace Pairing

def empty : Pairing where
  object _ _ := False
  frame _ _ := False
  object_left h := h.elim
  object_right h := h.elim
  frame_iff h := h.elim

/-- Everything that has a partner, paired with itself. -/
def left (p : Pairing) : Pairing where
  object v w := v = w ∧ ∃ v', p.object v v'
  frame f g := f = g ∧ ∃ f', p.frame f f'
  object_left := by
    rintro v _ w _ ⟨rfl, v', hv⟩ ⟨rfl, w', hw⟩ heq
    have h := (p.object_left hv hw heq).1
    exact ⟨h, h⟩
  object_right := by
    rintro v _ w _ ⟨rfl, v', hv⟩ ⟨rfl, w', hw⟩ heq
    have h := (p.object_left hv hw heq).1
    exact ⟨h, h⟩
  frame_iff := by
    rintro f _ g _ ⟨rfl, -⟩ ⟨rfl, -⟩
    rfl

end Pairing

variable {p : Pairing}

theorem Value.Corresponds.left {v v' : Value} (h : Corresponds p v v') :
    Corresponds p.left v v := by
  induction h with
  | number n => exact .number n
  | symbol s => exact .symbol s
  | pair ho _ _ iha ihd => exact .pair ⟨rfl, _, ho⟩ iha ihd
  | closure ho hf _ _ ihparams ihbody => exact .closure ⟨rfl, _, ho⟩ ⟨rfl, _, hf⟩ ihparams ihbody

theorem optionRel_left {α β : Type} {A : α → β → Prop} {B : α → α → Prop}
    (hAB : ∀ a b, A a b → B a a) {x : Option α} {y : Option β} (h : Option.Rel A x y) :
    Option.Rel B x x := by
  cases h with
  | none => exact .none
  | some hab => exact .some (hAB _ _ hab)

theorem Heap.Corresponds.left {h h' : Heap} (hh : Corresponds p h h') :
    Corresponds p.left h h := by
  refine ⟨?_, ?_, ?_, ?_, ?_⟩
  · rintro f _ ⟨rfl, f', hf⟩
    exact ⟨(hh.lt_size hf).1, (hh.lt_size hf).1⟩
  · intro f hf
    exact ⟨f, rfl, hh.exists_frame f hf⟩
  · rintro f _ ⟨rfl, f', hf⟩
    exact ⟨(hh.parent_lt hf).1, (hh.parent_lt hf).1⟩
  · rintro f _ ⟨rfl, f', hf⟩
    exact optionRel_left (fun g g' hg => ⟨rfl, g', hg⟩) (hh.parent hf)
  · rintro f _ ⟨rfl, f', hf⟩ x
    exact optionRel_left (fun v v' hv => hv.left) (hh.binding hf x)

theorem Machine.Corresponds.left {m m' : Machine} (hm : Corresponds p m m') :
    Corresponds p.left m m := by
  refine ⟨hm.heap.left, ?_, rfl⟩
  rintro v _ ⟨rfl, v', hv⟩
  exact ⟨(hm.made v v' hv).1, (hm.made v v' hv).1⟩

/-- The machine corresponds to itself, and so do the values. -/
structure Machine.SoundUnder (p : Pairing) (m : Machine) (held : List Value) : Prop where
  machine : m.Corresponds p m
  frame : ∀ f < m.heap.frames.size, p.frame f f
  value : ∀ v ∈ held, Value.Corresponds p v v

/-- What is made of a sound machine is sound. -/
theorem Machine.SoundUnder.of_corresponds {q : Pairing} {m m' : Machine} {held : List Value}
    (hm : m.Corresponds q m') (hheld : ∀ v ∈ held, ∃ v', Value.Corresponds q v v') :
    m.SoundUnder q.left held := by
  refine ⟨hm.left, fun f hf => ⟨rfl, hm.heap.exists_frame f hf⟩, ?_⟩
  intro v hv
  obtain ⟨v', hvv'⟩ := hheld v hv
  exact hvv'.left

theorem Value.Corresponds.of_contains {v w : Value} (h : Corresponds p v v) (hw : v.Contains w) :
    Corresponds p w w := by
  induction hw with
  | self v => exact h
  | first serial _ ih =>
      cases h with
      | pair _ hfirst _ => exact ih hfirst
  | rest serial _ ih =>
      cases h with
      | pair _ _ hrest => exact ih hrest
  | params serial frame _ ih =>
      cases h with
      | closure _ _ hparams _ => exact ih hparams
  | body serial frame _ ih =>
      cases h with
      | closure _ _ _ hbody => exact ih hbody

/-! ## Soundness -/

theorem Frame.corresponds_global : Frame.global.Corresponds p Frame.global := by
  have hfold : ∀ (names : List Symbol) (frame : Frame), frame.Corresponds p frame →
      (names.foldl (fun frame s => frame.define s (.symbol s)) frame).Corresponds p
        (names.foldl (fun frame s => frame.define s (.symbol s)) frame) := by
    intro names
    induction names with
    | nil => exact fun _ h => h
    | cons x names ih => exact fun frame h => ih _ (h.define x (.symbol x))
  exact hfold _ _ (corresponds_empty .none)

theorem Run.Corresponds.then_nil {α β : Type} {A : Pairing → α → β → Prop} {c : Run α} {d : Run β}
    (h : Corresponds p A c d) :
    Corresponds p Value.Corresponds (do let _ ← c; return Value.nil)
      (do let _ ← d; return Value.nil) :=
  h.bind fun _ _ _ _ _ => corresponds_pure (.symbol _)

theorem Operation.corresponds {m : Machine} {held : List Value} {c : Run Value}
    (hop : Operation m held c) (hm : m.SoundUnder p held) :
    Run.Corresponds p Value.Corresponds c c := by
  have hlist : ∀ vs : List Value, (∀ v ∈ vs, v ∈ held) →
      List.Forall₂ (Value.Corresponds p) vs vs := fun vs hvs =>
    List.forall₂_same.mpr fun v hv => hm.value v (hvs v hv)
  cases hop with
  | datum d => exact Run.corresponds_ofDatum d
  | list hitems htail => exact Run.corresponds_ofList (hlist _ hitems) (hm.value _ htail)
  | function hparams hbody hf =>
      exact Run.corresponds_function (hm.value _ hparams) (hm.value _ hbody) (hm.frame _ hf)
  | primitive op hargs =>
      exact Run.corresponds_ofExcept_bind (op.apply_agree (hlist _ hargs)) fun _ _ h => h
  | root => exact (Run.corresponds_push (Frame.corresponds_empty .none)).then_nil
  | global => exact (Run.corresponds_push Frame.corresponds_global).then_nil
  | child hf =>
      exact (Run.corresponds_push (Frame.corresponds_empty (.some (hm.frame _ hf)))).then_nil
  | extend hf hparams hargs =>
      exact (Run.corresponds_extend (hm.frame _ hf) (hm.value _ hparams) (hlist _ hargs)).then_nil
  | lookup x hf => exact Run.corresponds_lookup (hm.frame _ hf) x
  | define x hf hv => exact (Run.corresponds_define (hm.frame _ hf) x (hm.value _ hv)).then_nil
  | set x hf hv => exact (Run.corresponds_set (hm.frame _ hf) x (hm.value _ hv)).then_nil
  | evaluate limits fuel he hf =>
      exact evaluate_parametric limits fuel (hm.value _ he) (hm.frame _ hf)

theorem Reachable.sound {m : Machine} {held : List Value} (h : Reachable m held) :
    ∃ p, m.SoundUnder p held := by
  induction h with
  | blank room =>
      have hheap : Heap.Corresponds .empty Heap.empty Heap.empty :=
        ⟨nofun, nofun, nofun, nofun, nofun⟩
      exact ⟨.empty, ⟨hheap, nofun, rfl⟩, nofun, nofun⟩
  | @perform m held c _ hop ih =>
      obtain ⟨p, hm⟩ := ih
      obtain ⟨q, hpq, hresult⟩ := hop.corresponds hm m m hm.machine
      have hheld : ∀ v ∈ held, ∃ v', Value.Corresponds q v v' := fun v hv =>
        ⟨v, (hm.value v hv).mono hpq⟩
      rw [Run.given, Run.after]
      generalize c.run m = r at hresult ⊢
      cases hresult with
      | ok hv hm₁ => exact ⟨q.left, .of_corresponds hm₁ (by simpa using ⟨⟨_, hv⟩, hheld⟩)⟩
      | error _ hm₁ => exact ⟨q.left, .of_corresponds hm₁ hheld⟩
  | part _ hv hw ih =>
      obtain ⟨p, hm⟩ := ih
      refine ⟨p, hm.machine, hm.frame, ?_⟩
      simpa using ⟨(hm.value _ hv).of_contains hw, hm.value⟩
  | redirect k _ ih =>
      obtain ⟨p, hm⟩ := ih
      exact ⟨p, ⟨hm.machine.heap, hm.machine.made, rfl⟩, hm.frame, hm.value⟩

end Lisp
