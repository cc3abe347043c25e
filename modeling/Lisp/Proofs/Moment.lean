import Lisp.Proofs.Reachable
import Lisp.Proofs.Evaluation.Subevaluation

/-! # Moments of a run

A run is looked at between operations, but also inside an evaluation: when it comes to an inner
evaluation, when that has a value, and when a call has its function and its arguments. All values
at hand at such a moment are sound together, as are those that the frames bind. -/

namespace Lisp

/-- At some moment of a run the machine is this one and the values are at hand. -/
inductive Moment : Machine → List Value → Prop
  /-- Between operations. -/
  | between {m : Machine} {held : List Value} : Reachable m held → Moment m held
  /-- What a frame binds is at hand. -/
  | bound {m : Machine} {held : List Value} {f : FrameId} {x : Symbol} {v : Value} :
      Moment m held → m.heap.local? f x = some v → Moment m (v :: held)
  /-- An evaluation comes to an inner one. -/
  | enter {m : Machine} {held : List Value} {e : Value} {f : FrameId} (exhausted : Stop)
      (levels : Nat) {t : Task} : Moment m held → e ∈ held → f < m.heap.frames.size →
      (eval exhausted levels).Enters ⟨e, f, m⟩ t → Moment t.machine (t.expr :: held)
  /-- An evaluation has a value. -/
  | value {m m₁ : Machine} {held : List Value} {e v : Value} {f : FrameId} (exhausted : Stop)
      (levels : Nat) : Moment m held → e ∈ held → f < m.heap.frames.size →
      (eval exhausted levels e f).run m = .ok v m₁ → Moment m₁ (v :: held)
  /-- A call has its function and its arguments. -/
  | call {m m₁ m₂ : Machine} {held vs : List Value} {i : Serial} {head args function : Value}
      {f : FrameId} (exhausted : Stop) (levels : Nat) : Moment m held →
      .pair i head args ∈ held → f < m.heap.frames.size →
      (eval exhausted levels head f).run m = .ok function m₁ →
      ((eval exhausted levels).operands f args).run m₁ = .ok vs m₂ →
      Moment m₂ (function :: vs ++ held)

/-! ## Inside an evaluation -/

variable {p : Pairing}

/-- A computation that corresponds to itself leads from a machine that does to another. -/
theorem Run.Corresponds.of_ok {α : Type} {A : Pairing → α → α → Prop} {c : Run α} {a : α}
    {m m₁ : Machine} (hc : Run.Corresponds p A c c) (hm : m.Corresponds p m)
    (hr : c.run m = .ok a m₁) : ∃ q, p ≤ q ∧ A q a a ∧ m₁.Corresponds q m₁ := by
  obtain ⟨q, hpq, hresult⟩ := hc m m hm
  rw [hr] at hresult
  cases hresult with
  | ok ha hm₁ => exact ⟨q, hpq, ha, hm₁⟩

theorem Value.Corresponds.of_first {v a : Value} (h : Corresponds p v v) (ha : v.first = .ok a) :
    Corresponds p a a := by
  have hfirst := h.first
  rw [ha] at hfirst
  cases hfirst with
  | ok ha => exact ha

theorem Value.Corresponds.of_rest {v d : Value} (h : Corresponds p v v) (hd : v.rest = .ok d) :
    Corresponds p d d := by
  have hrest := h.rest
  rw [hd] at hrest
  cases hrest with
  | ok hd => exact hd

namespace Evaluator

variable {ev : Evaluator} {f : FrameId} {args a : Value} {m m₁ : Machine}

theorem corresponds_openFrame {params : Value} {frame : FrameId} {vs : List Value}
    (hframe : p.frame frame frame) (hparams : Value.Corresponds p params params)
    (hvs : List.Forall₂ (Value.Corresponds p) vs vs) :
    Run.Corresponds p Pairing.frame (openFrame params frame vs) (openFrame params frame vs) := by
  refine (Run.corresponds_emit _ _).bind fun q hpq _ _ _ => ?_
  have hargs := hvs.imp fun v v' (hv : Value.Corresponds p v v') => hv.mono hpq
  exact Run.corresponds_extend (hpq.2 _ _ hframe) (hparams.mono hpq) hargs

theorem EntersOperand.sound (hev : ev.Parametric) (h : ev.EntersOperand f args m a m₁)
    (hm : m.Corresponds p m) (hargs : Value.Corresponds p args args) (hf : p.frame f f) :
    ∃ q, p ≤ q ∧ Value.Corresponds q a a ∧ m₁.Corresponds q m₁ := by
  induction h generalizing p with
  | here =>
      cases hargs with
      | pair _ hfirst _ => exact ⟨p, le_refl p, hfirst, hm⟩
  | later hrun _ ih =>
      cases hargs with
      | pair _ hfirst hrest =>
          obtain ⟨q, hpq, -, hm₁⟩ := (hev hfirst hf).of_ok hm hrun
          obtain ⟨q', hqq', ha, hm₂⟩ := ih hm₁ (hrest.mono hpq) (hpq.2 _ _ hf)
          exact ⟨q', le_trans hpq hqq', ha, hm₂⟩

theorem EntersClause.sound (hev : ev.Parametric) (h : ev.EntersClause f args m a m₁)
    (hm : m.Corresponds p m) (hargs : Value.Corresponds p args args) (hf : p.frame f f) :
    ∃ q, p ≤ q ∧ Value.Corresponds q a a ∧ m₁.Corresponds q m₁ := by
  induction h generalizing p with
  | test ht =>
      cases hargs with
      | pair _ hclause _ => exact ⟨p, le_refl p, hclause.of_first ht, hm⟩
  | chosen ht hrun _ hd ha =>
      cases hargs with
      | pair _ hclause _ =>
          obtain ⟨q, hpq, -, hm₁⟩ := (hev (hclause.of_first ht) hf).of_ok hm hrun
          exact ⟨q, hpq, (((hclause.of_rest hd).of_first ha).mono hpq), hm₁⟩
  | later ht hrun _ _ ih =>
      cases hargs with
      | pair _ hclause hrest =>
          obtain ⟨q, hpq, -, hm₁⟩ := (hev (hclause.of_first ht) hf).of_ok hm hrun
          obtain ⟨q', hqq', ha, hm₂⟩ := ih hm₁ (hrest.mono hpq) (hpq.2 _ _ hf)
          exact ⟨q', le_trans hpq hqq', ha, hm₂⟩

/-- The function and the arguments of a call, and the machine that has them. -/
theorem Parametric.call_sound (hev : ev.Parametric) {head function : Value} {vs : List Value}
    {m₂ : Machine} (hm : m.Corresponds p m) (hhead : Value.Corresponds p head head)
    (hargs : Value.Corresponds p args args) (hf : p.frame f f)
    (hfunction : (ev head f).run m = .ok function m₁)
    (hvs : (ev.operands f args).run m₁ = .ok vs m₂) :
    ∃ q, p ≤ q ∧ Value.Corresponds q function function ∧
      List.Forall₂ (Value.Corresponds q) vs vs ∧ m₂.Corresponds q m₂ := by
  obtain ⟨q, hpq, hfun, hm₁⟩ := (hev hhead hf).of_ok hm hfunction
  obtain ⟨q', hqq', hlist, hm₂⟩ :=
    (hev.operands (hargs.mono hpq) (hpq.2 _ _ hf)).of_ok hm₁ hvs
  exact ⟨q', le_trans hpq hqq', hfun.mono hqq', hlist, hm₂⟩

/-- The expression of an inner evaluation, and the machine that it starts from. -/
theorem Enters.sound (hev : ev.Parametric) {t t₁ : Task} (h : ev.Enters t t₁)
    (hm : t.machine.Corresponds p t.machine) (he : Value.Corresponds p t.expr t.expr)
    (hf : p.frame t.frame t.frame) :
    ∃ q, p ≤ q ∧ Value.Corresponds q t₁.expr t₁.expr ∧ t₁.machine.Corresponds q t₁.machine := by
  cases h with
  | head =>
      cases he with
      | pair _ hhead _ => exact ⟨p, le_refl p, hhead, hm⟩
  | operand _ hrun henter =>
      cases he with
      | pair _ hhead hargs =>
          obtain ⟨q, hpq, -, hm₁⟩ := (hev hhead hf).of_ok hm hrun
          obtain ⟨q', hqq', ha, hm₂⟩ :=
            henter.sound hev hm₁ (hargs.mono hpq) (hpq.2 _ _ hf)
          exact ⟨q', le_trans hpq hqq', ha, hm₂⟩
  | body _ hrun hvs hopen =>
      cases he with
      | pair _ hhead hargs =>
          obtain ⟨q, hpq, hfun, hlist, hm₂⟩ := hev.call_sound hm hhead hargs hf hrun hvs
          cases hfun with
          | closure _ hframe hparams hbody =>
              obtain ⟨q', hqq', -, hm₃⟩ :=
                (corresponds_openFrame hframe hparams hlist).of_ok hm₂ hopen
              exact ⟨q', le_trans hpq hqq', hbody.mono hqq', hm₃⟩
  | set _ _ hd ha =>
      cases he with
      | pair _ _ hargs => exact ⟨p, le_refl p, (hargs.of_rest hd).of_first ha, hm⟩
  | clause _ henter =>
      cases he with
      | pair _ _ hargs => exact henter.sound hev hm hargs hf
  | print _ ha =>
      cases he with
      | pair _ _ hargs => exact ⟨p, le_refl p, hargs.of_first ha, hm⟩

end Evaluator

/-! ## Soundness -/

theorem Machine.SoundUnder.local? {m : Machine} {held : List Value} (hm : m.SoundUnder p held)
    {f : FrameId} {x : Symbol} {v : Value} (hv : m.heap.local? f x = some v) :
    Value.Corresponds p v v := by
  have hf : f < m.heap.frames.size := Heap.lt_size_of_local? (by rw [hv]; rfl)
  have hbinding := hm.machine.heap.binding (hm.frame f hf) x
  rw [hv] at hbinding
  cases hbinding with
  | some h => exact h

/-- The values at hand stay sound when the machine goes on. -/
theorem Machine.SoundUnder.later {q : Pairing} {m m₁ : Machine} {held : List Value}
    (hm : m.SoundUnder p held) (hpq : p ≤ q) (hm₁ : m₁.Corresponds q m₁) (vs : List Value)
    (hvs : ∀ v ∈ vs, Value.Corresponds q v v) : m₁.SoundUnder q.left (vs ++ held) := by
  refine .of_corresponds hm₁ fun v hv => ?_
  rcases List.mem_append.mp hv with hv | hv
  · exact ⟨v, hvs v hv⟩
  · exact ⟨v, (hm.value v hv).mono hpq⟩

/-- At every moment the machine and the values at hand are sound. -/
theorem Moment.sound {m : Machine} {held : List Value} (h : Moment m held) :
    ∃ p, m.SoundUnder p held := by
  induction h with
  | between h => exact h.sound
  | bound _ hv ih =>
      obtain ⟨p, hm⟩ := ih
      refine ⟨p, hm.machine, hm.frame, ?_⟩
      simpa using ⟨hm.local? hv, hm.value⟩
  | enter exhausted levels _ he hf henter ih =>
      obtain ⟨p, hm⟩ := ih
      obtain ⟨q, hpq, ht, hm₁⟩ := henter.sound (eval_parametric exhausted levels) hm.machine
        (hm.value _ he) (hm.frame _ hf)
      exact ⟨q.left, hm.later hpq hm₁ [_] (by simpa using ht)⟩
  | value exhausted levels _ he hf hrun ih =>
      obtain ⟨p, hm⟩ := ih
      obtain ⟨q, hpq, hv, hm₁⟩ := (eval_parametric exhausted levels (hm.value _ he)
        (hm.frame _ hf)).of_ok hm.machine hrun
      exact ⟨q.left, hm.later hpq hm₁ [_] (by simpa using hv)⟩
  | call exhausted levels _ he hf hrun hvs ih =>
      obtain ⟨p, hm⟩ := ih
      cases hm.value _ he with
      | pair _ hhead hargs =>
          have hev : (eval exhausted levels).Parametric := eval_parametric exhausted levels
          obtain ⟨q, hpq, hfun, hlist, hm₂⟩ :=
            hev.call_sound hm.machine hhead hargs (hm.frame _ hf) hrun hvs
          refine ⟨q.left, hm.later hpq hm₂ (_ :: _) ?_⟩
          simpa using ⟨hfun, List.forall₂_same.mp hlist⟩

end Lisp
