import Lisp.Proofs.Evaluation.Frames
import Lisp.Proofs.Reachable

/-! # Evaluating twice

An expression that mentions neither `SET` nor `DEFUN` binds nothing in any frame that was there
before. So a second evaluation starts from a machine that corresponds to the first one, though it
has more frames and objects, and goes the same way. -/

namespace Lisp

/-! ## Expressions that assign nothing -/

/-- The symbol stands somewhere in the expression; functions inside are not looked into. -/
def Value.Mentions (x : Symbol) : Value → Prop
  | symbol s => s = x
  | pair _ first rest => first.Mentions x ∨ rest.Mentions x
  | number _ | closure .. => False

instance (x : Symbol) : (v : Value) → Decidable (v.Mentions x)
  | .symbol s => inferInstanceAs (Decidable (s = x))
  | .pair _ first rest =>
      have := instDecidableMentions x first
      have := instDecidableMentions x rest
      inferInstanceAs (Decidable (first.Mentions x ∨ rest.Mentions x))
  | .number _ => .isFalse id
  | .closure .. => .isFalse id

theorem Value.Mentions.of_element {x : Symbol} {v a : Value} (ha : a ∈ v.elements)
    (h : a.Mentions x) : v.Mentions x := by
  induction v with
  | pair i first rest _ ih =>
      rw [elements, List.mem_cons] at ha
      rcases ha with rfl | ha
      · exact .inl h
      · exact .inr (ih ha)
  | number n => simp [elements] at ha
  | symbol s => simp [elements] at ha
  | closure i params body frame => simp [elements] at ha

theorem Value.Mentions.of_within {x : Symbol} {v e : Value} (hin : v.Within e)
    (h : v.Mentions x) : e.Mentions x := by
  induction hin with
  | self => exact h
  | element ha _ ih => exact .of_element ha ih

theorem Value.Assigns.mentions {e : Value} {x : Symbol} (h : e.Assigns x) :
    e.Mentions (Builtin.symbol (.special .set)) ∨
      e.Mentions (Builtin.symbol (.special .defun)) := by
  obtain ⟨form, i, j, rest, rfl | rfl, hin⟩ := h
  · exact .inl (.of_within hin (.inl rfl))
  · exact .inr (.of_within hin (.inl rfl))

/-! ## The machine after an evaluation that assigns nothing -/

/-- If nothing is bound, all frames of the first heap are as they were. -/
theorem Heap.BindsOnly.unchanged {f : FrameId} {targets : Symbol → Prop} {h h₁ : Heap}
    (hb : h.BindsOnly f targets h₁) (hnone : ∀ x, ¬ targets x) {g : FrameId}
    (hg : g < h.frames.size) :
    h₁.parent? g = h.parent? g ∧ ∀ x, h₁.local? g x = h.local? g x := by
  by_cases hgf : g = f
  · subst hgf
    exact ⟨hb.parent_eq hg, fun x => hb.local_eq hg x (hnone x)⟩
  · have hframe := hb.frame_eq g hg hgf
    exact ⟨parent?_congr hframe, fun x => local?_congr x hframe⟩

/-- A machine corresponds to a later one in which the frames of the first are as they were. -/
theorem Machine.Corresponds.later {p q : Pairing} {m m₁ : Machine} (hm : m.Corresponds p m)
    (hm₁ : m₁.Corresponds q m₁) (hpq : p ≤ q)
    (hold : ∀ g < m.heap.frames.size, m₁.heap.parent? g = m.heap.parent? g ∧
      ∀ x, m₁.heap.local? g x = m.heap.local? g x) :
    m.Corresponds p (m₁.withSink m.sink) := by
  refine ⟨⟨?_, ?_, ?_, ?_, ?_⟩, ?_, rfl⟩
  · intro f f' hf
    exact ⟨(hm.heap.lt_size hf).1, (hm₁.heap.lt_size (hpq.2 _ _ hf)).2⟩
  · exact hm.heap.exists_frame
  · intro f f' hf
    exact ⟨(hm.heap.parent_lt hf).1, (hm₁.heap.parent_lt (hpq.2 _ _ hf)).2⟩
  · intro f f' hf
    have hparent := hm.heap.parent hf
    rwa [← (hold f' (hm.heap.lt_size hf).2).1] at hparent
  · intro f f' hf x
    have hbinding := hm.heap.binding hf x
    rwa [← (hold f' (hm.heap.lt_size hf).2).2 x] at hbinding
  · intro v v' hv
    exact ⟨(hm.made v v' hv).1, (hm₁.made v v' (hpq.1 _ _ hv)).2⟩

/-! ## The second evaluation -/

/-- Values with one printed form, or errors of one kind and one text. -/
inductive Run.SameAnswer :
    EStateM.Result Stop Machine Value → EStateM.Result Stop Machine Value → Prop
  | value {v v' : Value} {m m' : Machine} : v.print = v'.print → SameAnswer (.ok v m) (.ok v' m')
  | error {e e' : Error} {m m' : Machine} : e.ctorIdx = e'.ctorIdx → e.message = e'.message →
      SameAnswer (.error (.error e) m) (.error (.error e') m')

/-- The sink that a result leaves is no part of the answer. -/
theorem Run.SameAnswer.withSink {r r' : EStateM.Result Stop Machine Value} {k : Sink} (k' : Sink)
    (h : SameAnswer r (withSink k r')) : SameAnswer r (withSink k' r') := by
  cases r' with
  | ok v' m' =>
      cases h with
      | value hprint => exact .value hprint
  | error s m' =>
      cases h with
      | error hkind htext => exact .error hkind htext

theorem Run.SameAnswer.ends {r r' : EStateM.Result Stop Machine Value} (h : SameAnswer r r')
    (m : Machine) : r' ≠ .error .outOfFuel m := by
  rintro rfl
  cases h

theorem Run.ResultsCorrespond.sameAnswer {q : Pairing}
    {r r' : EStateM.Result Stop Machine Value} (h : ResultsCorrespond Value.Corresponds q r r')
    (hr : ∀ m, r ≠ .error .outOfFuel m) : SameAnswer r r' := by
  cases h with
  | ok hv _ => exact .value hv.print_eq
  | error hs _ =>
      cases hs with
      | error he => exact .error he.ctorIdx_eq he.message_eq
      | outOfFuel => exact absurd rfl (hr _)

theorem Run.ResultsCorrespond.machineOf {α β : Type} {A : Pairing → α → β → Prop} {q : Pairing}
    {r : EStateM.Result Stop Machine α} {r' : EStateM.Result Stop Machine β}
    (h : ResultsCorrespond A q r r') : (machineOf r).Corresponds q (machineOf r') := by
  cases h with
  | ok _ hm => exact hm
  | error _ hm => exact hm

theorem Run.after_eq_machineOf {α : Type} (c : Run α) (m : Machine) :
    c.after m = machineOf (c.run m) := by
  rw [after]
  cases c.run m <;> rfl

theorem Run.sink_machineOf_withSink {α : Type} (k : Sink) (r : EStateM.Result Stop Machine α) :
    (machineOf (withSink k r)).sink = k := by
  cases r <;> rfl

theorem Sink.put_of_room {k : Sink} (hk : k.room = none) (out : ByteArray) :
    k.put out = (true, ⟨k.bytes ++ out, none⟩) := by
  obtain ⟨bytes, room⟩ := k
  cases hk
  rfl

/-- From a machine that corresponds to itself an evaluation that assigns nothing leads to one that
the first machine corresponds to. -/
theorem evaluate_corresponds_after {p : Pairing} (limits : Limits) (fuel : Nat) {m : Machine}
    {e : Value} {env : FrameId} (hm : m.Corresponds p m) (he : Value.Corresponds p e e)
    (henv : p.frame env env) (hassigns : ∀ x, ¬ e.Assigns x) :
    m.Corresponds p (((evaluate limits fuel e env).after m).withSink m.sink) := by
  obtain ⟨q, hpq, hresult⟩ := evaluate_parametric limits fuel he henv m m hm
  have hm₁ := hresult.machineOf
  rw [← Run.after_eq_machineOf] at hm₁
  have hbinds := eval_bindsLocally limits.exhausted (limits.levels fuel) e env m
  rw [← evaluate_eq_eval] at hbinds
  exact hm.later hm₁ hpq fun g hg => hbinds.unchanged hassigns hg

/-- An expression that mentions neither `SET` nor `DEFUN` can be evaluated again. From any machine
that can be reached, with an unlimited sink, a second evaluation right after one that ends also
ends: with a value of the same printed form, or an error of the same kind and text. Both append
the same bytes to the sink. -/
theorem evaluate_repeatable {limits : Limits} {m : Machine} {held : List Value} {e : Value}
    {env : FrameId} {r : EStateM.Result Stop Machine Value} (hm : Reachable m held)
    (hroom : m.sink.room = none) (he : e ∈ held) (henv : env < m.heap.frames.size)
    (hset : ¬ e.Mentions (Builtin.symbol (.special .set)))
    (hdefun : ¬ e.Mentions (Builtin.symbol (.special .defun)))
    (hr : EvaluatesTo limits e env m r) :
    ∃ r' out, EvaluatesTo limits e env (Run.machineOf r) r' ∧ Run.SameAnswer r r' ∧
      (Run.machineOf r).sink.bytes = m.sink.bytes ++ out ∧
      (Run.machineOf r').sink.bytes = (Run.machineOf r).sink.bytes ++ out := by
  obtain ⟨fuel, hrun, hfuel⟩ := hr
  obtain ⟨p, hsound⟩ := hm.sound
  have hassigns : ∀ x, ¬ e.Assigns x := fun x h => h.mentions.elim hset hdefun
  have hself := hsound.value e he
  have hframe := hsound.frame env henv
  have hlater :=
    evaluate_corresponds_after limits fuel hsound.machine hself hframe hassigns
  rw [Run.after_eq_machineOf, hrun] at hlater
  -- over the first sink the second run corresponds to the first one
  obtain ⟨q, -, hresult⟩ := evaluate_parametric limits fuel hself hframe _ _ hlater
  rw [hrun] at hresult
  -- over its own sink it does the same, behind what is there already
  obtain ⟨out, r₀, hwrites⟩ := evaluate_buffered limits fuel e env (Run.machineOf r)
  have hput := Sink.put_of_room hroom out
  rw [hwrites.accepted m.sink (by rw [hput])] at hresult
  have hsink : (Run.machineOf r).sink = ⟨m.sink.bytes ++ out, none⟩ := by
    rw [hresult.machineOf.sink, Run.sink_machineOf_withSink, hput]
  have hput' := Sink.put_of_room (k := (Run.machineOf r).sink) (by rw [hsink]) out
  have hagain := hwrites.accepted (Run.machineOf r).sink (by rw [hput'])
  have hanswer := (hresult.sameAnswer hfuel).withSink ((Run.machineOf r).sink.put out).2
  refine ⟨_, out, ⟨fuel, hagain, hanswer.ends⟩, hanswer, by rw [hsink], ?_⟩
  rw [Run.sink_machineOf_withSink, hput']

/-- A function that prints, and binds a name in its own frame, is called for the second time. -/
theorem evaluate_repeatable_call :
    let name (s : String) : Datum := .symbol (.ofName s)
    let list (ds : List Datum) : Datum := .ofList ds .nil
    let definition : Datum := list [name "DEFUN", name "F", list [name "X"],
      list [name "PRINT", list [name "SET", name "Y", name "X"]]]
    let call : Datum := list [name "LIST", list [name "F", .number 5], name "F"]
    let m₁ := (do let _ ← Run.push .global; return Value.nil : Run Value).after (.blank none)
    let m₂ := (Run.fresh (Value.ofDatum definition)).after m₁
    let m₃ := (evaluate .unlimited 9 ((Value.ofDatum definition).run m₁.serial).1 0).after m₂
    let m := (Run.fresh (Value.ofDatum call)).after m₃
    let e := ((Value.ofDatum call).run m₃.serial).1
    let r := (evaluate .unlimited 9 e 0).run m
    ∃ r', EvaluatesTo .unlimited e 0 (Run.machineOf r) r' ∧ Run.SameAnswer r r' ∧
      (Run.machineOf r).sink.bytes = "5\n".toUTF8 ∧
      (Run.machineOf r').sink.bytes = "5\n".toUTF8 ++ "5\n".toUTF8 := by
  intro name list definition call m₁ m₂ m₃ m e r
  have h₁ : Reachable m₁ [.nil] := .perform (.blank none) .global
  have h₂ : Reachable m₂ [_, .nil] := .perform h₁ (.datum definition)
  have h₃ : Reachable m₃ _ :=
    .perform h₂ (.evaluate .unlimited 9 (List.mem_cons_self ..) (by decide +kernel))
  have hm : Reachable m (e :: _) := .perform h₃ (.datum call)
  have hends : EvaluatesTo .unlimited e 0 m r := by
    have hgiven : (evaluate .unlimited 9 e 0).given m ≠ [] := by decide +kernel
    refine ⟨9, rfl, fun m' h => hgiven ?_⟩
    rw [Run.given, show (evaluate .unlimited 9 e 0).run m = _ from h]
  obtain ⟨r', out, hagain, hsame, hout, hout'⟩ :=
    evaluate_repeatable hm rfl (List.mem_cons_self ..) (by decide +kernel) (by decide +kernel)
      (by decide +kernel) hends
  have hbytes : (Run.machineOf r).sink.bytes = "5\n".toUTF8 := by decide +kernel
  have hbefore : m.sink.bytes = .empty := by decide +kernel
  rw [hbefore, ByteArray.empty_append, hbytes] at hout
  exact ⟨r', hagain, hsame, hbytes, by rw [hout', hbytes, hout]⟩

end Lisp
