import Lisp.Proofs.Heap
import Lisp.Proofs.Run
import Lisp.Proofs.Correspondence.Value

/-! # Machines that correspond

Machines correspond under a pairing if their paired frames have paired parents and bind the same
names to values that correspond. `Run.Corresponds` says that two computations take such machines
to such machines, under a pairing that has only grown: what was paired before stays so, and what
the two have made since then is paired in the order of making. -/

namespace Lisp

/-! ## New pairs -/

namespace Pairing

variable (p : Pairing)

/-- The pairing with a pair of frames that had no partners. -/
def addFrame (n n' : FrameId) (hnew : ∀ f f', p.frame f f' → f ≠ n ∧ f' ≠ n') : Pairing where
  object := p.object
  frame f f' := p.frame f f' ∨ f = n ∧ f' = n'
  object_left := p.object_left
  object_right := p.object_right
  frame_iff := by
    rintro f f' g g' (hf | ⟨rfl, rfl⟩) (hg | ⟨rfl, rfl⟩)
    · exact p.frame_iff hf hg
    · exact iff_of_false (hnew f f' hf).1 (hnew f f' hf).2
    · exact iff_of_false (hnew g g' hg).1.symm (hnew g g' hg).2.symm
    · exact iff_of_true rfl rfl

theorem le_addFrame {n n' : FrameId} (hnew : ∀ f f', p.frame f f' → f ≠ n ∧ f' ≠ n') :
    p ≤ p.addFrame n n' hnew :=
  ⟨fun _ _ h => h, fun _ _ h => .inl h⟩

/-- The pairing with a pair of objects of serial numbers that had no partners. -/
def addObject (o o' : Value)
    (hnew : ∀ v v', p.object v v' → v.serial? ≠ o.serial? ∧ v'.serial? ≠ o'.serial?) :
    Pairing where
  object v v' := p.object v v' ∨ v = o ∧ v' = o'
  frame := p.frame
  object_left := by
    rintro v v' w w' (hv | ⟨rfl, rfl⟩) (hw | ⟨rfl, rfl⟩) heq
    · exact p.object_left hv hw heq
    · exact absurd heq (hnew v v' hv).1
    · exact absurd heq.symm (hnew w w' hw).1
    · exact ⟨rfl, rfl⟩
  object_right := by
    rintro v v' w w' (hv | ⟨rfl, rfl⟩) (hw | ⟨rfl, rfl⟩) heq
    · exact p.object_right hv hw heq
    · exact absurd heq (hnew v v' hv).2
    · exact absurd heq.symm (hnew w w' hw).2
    · exact ⟨rfl, rfl⟩
  frame_iff := p.frame_iff

theorem le_addObject {o o' : Value}
    (hnew : ∀ v v', p.object v v' → v.serial? ≠ o.serial? ∧ v'.serial? ≠ o'.serial?) :
    p ≤ p.addObject o o' hnew :=
  ⟨fun _ _ h => .inl h, fun _ _ h => h⟩

end Pairing

theorem optionRel_mono {α β : Type} {A B : α → β → Prop} (hAB : ∀ a b, A a b → B a b)
    {x : Option α} {y : Option β} (h : Option.Rel A x y) : Option.Rel B x y := by
  cases h with
  | none => exact .none
  | some hab => exact .some (hAB _ _ hab)

/-! ## Heaps -/

/-- The frames have paired parents and bind the same names to values that correspond. -/
structure Frame.Corresponds (p : Pairing) (frame frame' : Frame) : Prop where
  parent : Option.Rel p.frame frame.parent frame'.parent
  binding : ∀ x, Option.Rel (Value.Corresponds p) (frame.lookup? x) (frame'.lookup? x)

/-- Paired frames have paired parents, older than themselves, and bind the same names to values
that correspond. Every frame of the first heap has a partner. -/
structure Heap.Corresponds (p : Pairing) (h h' : Heap) : Prop where
  lt_size : ∀ {f f'}, p.frame f f' → f < h.frames.size ∧ f' < h'.frames.size
  exists_frame : ∀ f < h.frames.size, ∃ f', p.frame f f'
  parent_lt : ∀ {f f'}, p.frame f f' →
    (∀ g, h.parent? f = some g → g < f) ∧ ∀ g, h'.parent? f' = some g → g < f'
  parent : ∀ {f f'}, p.frame f f' → Option.Rel p.frame (h.parent? f) (h'.parent? f')
  binding : ∀ {f f'}, p.frame f f' → ∀ x,
    Option.Rel (Value.Corresponds p) (h.local? f x) (h'.local? f' x)

theorem Heap.chain_of_parent {h : Heap} {f : FrameId} (hf : f < h.frames.size)
    (hlt : ∀ g, h.parent? f = some g → g < f) : h.chain f = f :: (h.parent? f).elim [] h.chain := by
  have hframe : h.frame? f = some h.frames[f] := Array.getElem?_eq_getElem hf
  have hparent : h.parent? f = h.frames[f].parent := by rw [parent?, hframe, Option.bind_some]
  rw [hparent] at hlt ⊢
  rw [chain, hframe]
  cases hp : h.frames[f].parent with
  | none => simp [hp]
  | some g => simp [hp, hlt g hp]

namespace Heap.Corresponds

variable {p : Pairing} {h h' : Heap} {f f' : FrameId}

theorem chain (hh : Corresponds p h h') (hf : p.frame f f') :
    List.Forall₂ p.frame (h.chain f) (h'.chain f') := by
  induction f using Nat.strongRecOn generalizing f' with
  | ind f ih =>
      obtain ⟨hlt, hlt'⟩ := hh.parent_lt hf
      have hparent := hh.parent hf
      rw [chain_of_parent (hh.lt_size hf).1 hlt, chain_of_parent (hh.lt_size hf).2 hlt']
      refine .cons hf ?_
      generalize h.parent? f = parent, h'.parent? f' = parent' at hparent hlt ⊢
      cases hparent with
      | none => exact .nil
      | @some g _ hg => exact ih g (hlt g rfl) hg

theorem lookup? (hh : Corresponds p h h') (hf : p.frame f f') (x : Symbol) :
    Option.Rel (Value.Corresponds p) (h.lookup? f x) (h'.lookup? f' x) := by
  have hchain := hh.chain hf
  rw [Heap.lookup?, Heap.lookup?]
  generalize h.chain f = gs, h'.chain f' = gs' at hchain ⊢
  induction hchain with
  | nil => exact .none
  | @cons g g' _ _ hg _ ih =>
      have hbinding := hh.binding hg x
      rw [List.findSome?_cons, List.findSome?_cons]
      generalize h.local? g x = v, h'.local? g' x = v' at hbinding ⊢
      cases hbinding with
      | none => exact ih
      | some hv => exact .some hv

theorem lookup (hh : Corresponds p h h') (hf : p.frame f f') (x : Symbol) :
    Agree (Value.Corresponds p) (h.lookup f x) (h'.lookup f' x) := by
  have hvalue := hh.lookup? hf x
  rw [Heap.lookup, Heap.lookup]
  generalize h.lookup? f x = v, h'.lookup? f' x = v' at hvalue ⊢
  cases hvalue with
  | none => exact .error (.refl _)
  | some hv => exact .ok hv

theorem holder? (hh : Corresponds p h h') (hf : p.frame f f') (x : Symbol) :
    Option.Rel p.frame (h.holder? f x) (h'.holder? f' x) := by
  have hchain := hh.chain hf
  rw [Heap.holder?, Heap.holder?]
  generalize h.chain f = gs, h'.chain f' = gs' at hchain ⊢
  induction hchain with
  | nil => exact .none
  | @cons g g' _ _ hg _ ih =>
      have hbinding := hh.binding hg x
      rw [List.find?_cons, List.find?_cons]
      generalize h.local? g x = v, h'.local? g' x = v' at hbinding ⊢
      cases hbinding with
      | none => exact ih
      | some hv => exact .some hg

theorem define (hh : Corresponds p h h') (hf : p.frame f f') (x : Symbol) {v v' : Value}
    (hv : Value.Corresponds p v v') : Corresponds p (h.define f x v) (h'.define f' x v') := by
  refine ⟨?_, ?_, ?_, ?_, ?_⟩
  · intro g g' hg
    simpa using hh.lt_size hg
  · intro g hg
    exact hh.exists_frame g (by simpa using hg)
  · intro g g' hg
    simpa only [parent?_define] using hh.parent_lt hg
  · intro g g' hg
    simpa only [parent?_define] using hh.parent hg
  · intro g g' hg y
    have hlocal := hh.binding hg y
    by_cases heq : f = g
    · have heq' : f' = g' := (p.frame_iff hf hg).mp heq
      subst heq heq'
      rw [local?_define x y v (hh.lt_size hf).1, local?_define x y v' (hh.lt_size hf).2]
      split
      · exact .some hv
      · exact hlocal
    · have heq' : f' ≠ g' := fun h => heq ((p.frame_iff hf hg).mpr h)
      rwa [local?_congr y ((frame?_define x v).trans (if_neg heq)),
        local?_congr y ((frame?_define x v').trans (if_neg heq'))]

/-- Heaps with the same pairs of frames correspond under a pairing with more objects. -/
theorem mono {q : Pairing} (hh : Corresponds p h h') (hpq : p ≤ q) (hframe : q.frame = p.frame) :
    Corresponds q h h' := by
  refine ⟨?_, ?_, ?_, ?_, ?_⟩
  · rw [hframe]
    exact hh.lt_size
  · rw [hframe]
    exact hh.exists_frame
  · rw [hframe]
    exact hh.parent_lt
  · rw [hframe]
    exact hh.parent
  · rw [hframe]
    exact fun hf x => optionRel_mono (fun _ _ hv => hv.mono hpq) (hh.binding hf x)

/-- The places of the next frames have no partners. -/
theorem frame_ne_size (hh : Corresponds p h h') (f f' : FrameId) (hf : p.frame f f') :
    f ≠ h.frames.size ∧ f' ≠ h'.frames.size :=
  ⟨Nat.ne_of_lt (hh.lt_size hf).1, Nat.ne_of_lt (hh.lt_size hf).2⟩

theorem push (hh : Corresponds p h h') {frame frame' : Frame}
    (hframe : frame.Corresponds p frame') :
    Corresponds (p.addFrame _ _ hh.frame_ne_size) (h.push frame).2 (h'.push frame').2 := by
  have hle := p.le_addFrame hh.frame_ne_size
  refine ⟨?_, ?_, ?_, ?_, ?_⟩
  · rintro f f' (hf | ⟨rfl, rfl⟩)
    · have hlt := hh.lt_size hf
      rw [size_push, size_push]
      exact ⟨Nat.lt_succ_of_lt hlt.1, Nat.lt_succ_of_lt hlt.2⟩
    · simp
  · intro f hf
    rw [size_push] at hf
    rcases Nat.lt_succ_iff_lt_or_eq.mp hf with hf | rfl
    · obtain ⟨f', hf'⟩ := hh.exists_frame f hf
      exact ⟨f', .inl hf'⟩
    · exact ⟨_, .inr ⟨rfl, rfl⟩⟩
  · rintro f f' (hf | ⟨rfl, rfl⟩)
    · rw [parent?_congr (frame?_push_of_lt frame (hh.lt_size hf).1),
        parent?_congr (frame?_push_of_lt frame' (hh.lt_size hf).2)]
      exact hh.parent_lt hf
    · rw [parent?_push_size, parent?_push_size]
      have hparent := hframe.parent
      generalize frame.parent = g, frame'.parent = g' at hparent ⊢
      cases hparent with
      | none => simp
      | some hg => simpa using hh.lt_size hg
  · rintro f f' (hf | ⟨rfl, rfl⟩)
    · rw [parent?_congr (frame?_push_of_lt frame (hh.lt_size hf).1),
        parent?_congr (frame?_push_of_lt frame' (hh.lt_size hf).2)]
      exact optionRel_mono hle.2 (hh.parent hf)
    · rw [parent?_push_size, parent?_push_size]
      exact optionRel_mono hle.2 hframe.parent
  · rintro f f' (hf | ⟨rfl, rfl⟩) x
    · rw [local?_congr x (frame?_push_of_lt frame (hh.lt_size hf).1),
        local?_congr x (frame?_push_of_lt frame' (hh.lt_size hf).2)]
      exact optionRel_mono (fun _ _ hv => hv.mono hle) (hh.binding hf x)
    · rw [local?_push_size, local?_push_size]
      exact optionRel_mono (fun _ _ hv => hv.mono hle) (hframe.binding x)

end Heap.Corresponds

/-! ## Machines -/

/-- The heaps correspond, paired objects were made before, and the sinks are the same. -/
structure Machine.Corresponds (p : Pairing) (m m' : Machine) : Prop where
  heap : m.heap.Corresponds p m'.heap
  made : ∀ v v', p.object v v' →
    (∃ i < m.serial, v.serial? = some i) ∧ ∃ i < m'.serial, v'.serial? = some i
  sink : m.sink = m'.sink

inductive Stop.Alike : Stop → Stop → Prop
  | error {e e' : Error} : e.Alike e' → Alike (error e) (error e')
  | outOfFuel : Alike outOfFuel outOfFuel

theorem Stop.Alike.refl (s : Stop) : s.Alike s := by
  cases s with
  | error e => exact .error (.refl e)
  | outOfFuel => exact .outOfFuel

/-! ## Computations -/

namespace Run

variable {α β γ δ : Type}

/-- The results are related values, or stops alike, and leave machines that correspond. -/
inductive ResultsCorrespond (A : Pairing → α → β → Prop) (p : Pairing) :
    EStateM.Result Stop Machine α → EStateM.Result Stop Machine β → Prop
  | ok {a : α} {b : β} {m m' : Machine} : A p a b → m.Corresponds p m' →
      ResultsCorrespond A p (.ok a m) (.ok b m')
  | error {s s' : Stop} {m m' : Machine} : s.Alike s' → m.Corresponds p m' →
      ResultsCorrespond A p (.error s m) (.error s' m')

/-- From machines that correspond the computations come to results that do, under a pairing that
goes beyond the first. -/
def Corresponds (p : Pairing) (A : Pairing → α → β → Prop) (c : Run α) (d : Run β) : Prop :=
  ∀ m m', m.Corresponds p m' → ∃ q, p ≤ q ∧ ResultsCorrespond A q (c.run m) (d.run m')

variable {p : Pairing} {A : Pairing → α → β → Prop} {B : Pairing → γ → δ → Prop}

theorem corresponds_pure {a : α} {b : β} (h : A p a b) :
    Corresponds p A (pure a) (pure b) :=
  fun _ _ hm => ⟨p, le_refl p, .ok h hm⟩

theorem corresponds_throw {s s' : Stop} (h : s.Alike s') :
    Corresponds p A (throw s) (throw s') :=
  fun _ _ hm => ⟨p, le_refl p, .error h hm⟩

theorem corresponds_fail {e e' : Error} (h : e.Alike e') :
    Corresponds p A (fail e) (fail e') :=
  corresponds_throw (.error h)

theorem corresponds_ofExcept {x : Except Error α} {y : Except Error β} (h : Agree (A p) x y) :
    Corresponds p A (ofExcept x) (ofExcept y) := by
  cases h with
  | ok hab => exact corresponds_pure hab
  | error he => exact corresponds_fail he

theorem Corresponds.bind {c : Run α} {d : Run β} {k : α → Run γ} {l : β → Run δ}
    (hcd : Corresponds p A c d)
    (hkl : ∀ q, p ≤ q → ∀ a b, A q a b → Corresponds q B (k a) (l b)) :
    Corresponds p B (c >>= k) (d >>= l) := by
  intro m m' hm
  obtain ⟨q, hpq, hresult⟩ := hcd m m' hm
  rw [EStateM.run_bind, EStateM.run_bind]
  generalize c.run m = r, d.run m' = r' at hresult ⊢
  cases hresult with
  | ok hab hm₁ =>
      obtain ⟨q', hqq', hresult'⟩ := hkl q hpq _ _ hab _ _ hm₁
      exact ⟨q', le_trans hpq hqq', hresult'⟩
  | error hs hm₁ => exact ⟨q, hpq, .error hs hm₁⟩

/-- After a result that is there already no new pairs have come. -/
theorem corresponds_ofExcept_bind {R : α → β → Prop} {x : Except Error α} {y : Except Error β}
    {k : α → Run γ} {l : β → Run δ} (hxy : Agree R x y)
    (hkl : ∀ a b, R a b → Corresponds p B (k a) (l b)) :
    Corresponds p B (ofExcept x >>= k) (ofExcept y >>= l) := by
  cases hxy with
  | ok hab => exact hkl _ _ hab
  | error he => exact corresponds_fail he

theorem Corresponds.inContext {c : Run α} {d : Run β} (hcd : Corresponds p A c d)
    {call call' : Value} (hcall : call.print = call'.print) :
    Corresponds p A (Run.inContext call c) (Run.inContext call' d) := by
  intro m m' hm
  obtain ⟨q, hpq, hresult⟩ := hcd m m' hm
  refine ⟨q, hpq, ?_⟩
  simp only [Run.inContext, EStateM.run_adaptExcept]
  generalize c.run m = r, d.run m' = r' at hresult ⊢
  cases hresult with
  | ok hab hm₁ => exact .ok hab hm₁
  | error hs hm₁ =>
      cases hs with
      | error he => exact .error (.error (he.inContext hcall)) hm₁
      | outOfFuel => exact .error .outOfFuel hm₁

/-! ### Operations -/

/-- The relation of computations whose value says nothing. -/
abbrev Same (_ : Pairing) (a b : α) : Prop := a = b

theorem corresponds_lookup {f f' : FrameId} (hf : p.frame f f') (x : Symbol) :
    Corresponds p Value.Corresponds (lookup f x) (lookup f' x) := by
  intro m m' hm
  rw [run_lookup, run_lookup]
  exact corresponds_ofExcept (hm.heap.lookup hf x) m m' hm

theorem corresponds_define {f f' : FrameId} (hf : p.frame f f') (x : Symbol) {v v' : Value}
    (hv : Value.Corresponds p v v') : Corresponds p Same (define f x v) (define f' x v') :=
  fun _ _ hm => ⟨p, le_refl p, .ok rfl ⟨hm.heap.define hf x hv, hm.made, hm.sink⟩⟩

theorem corresponds_set {f f' : FrameId} (hf : p.frame f f') (x : Symbol) {v v' : Value}
    (hv : Value.Corresponds p v v') : Corresponds p Same (set f x v) (set f' x v') := by
  intro m m' hm
  rw [run_set, run_set, Heap.set, Heap.set]
  have hholder := hm.heap.holder? hf x
  generalize m.heap.holder? f x = g, m'.heap.holder? f' x = g' at hholder ⊢
  cases hholder with
  | none => exact ⟨p, le_refl p, .error (.refl _) hm⟩
  | some hg => exact corresponds_define hg x hv m m' hm

theorem corresponds_isRoot {f f' : FrameId} (hf : p.frame f f') :
    Corresponds p Same (isRoot f) (isRoot f') := by
  intro m m' hm
  refine ⟨p, le_refl p, .ok ?_ hm⟩
  have hparent := hm.heap.parent hf
  generalize m.heap.parent? f = g, m'.heap.parent? f' = g' at hparent ⊢
  cases hparent <;> rfl

/-- Machines correspond whatever they report. -/
theorem corresponds_emit (e e' : Event) : Corresponds p Same (emit e) (emit e') :=
  fun _ _ hm => ⟨p, le_refl p, .ok rfl ⟨hm.heap, hm.made, hm.sink⟩⟩

theorem corresponds_write (text : String) : Corresponds p Same (write text) (write text) := by
  intro m m' hm
  refine ⟨p, le_refl p, ?_⟩
  rw [run_write, run_write, hm.sink]
  split
  · exact .ok rfl ⟨hm.heap, hm.made, rfl⟩
  · exact .error (.refl _) ⟨hm.heap, hm.made, rfl⟩

theorem corresponds_push {frame frame' : Frame} (hframe : frame.Corresponds p frame') :
    Corresponds p Pairing.frame (push frame) (push frame') :=
  fun _ _ hm => ⟨_, p.le_addFrame hm.heap.frame_ne_size,
    .ok (.inr ⟨rfl, rfl⟩) ⟨hm.heap.push hframe, hm.made, hm.sink⟩⟩

/-! ### Makers -/

theorem fresh_bind (make : Fresh α) (k : α → Fresh γ) :
    fresh (make >>= k) = fresh make >>= fun a => fresh (k a) := rfl

/-- Two new objects become partners. -/
theorem corresponds_new {make make' : Serial → Value} (hserial : ∀ i, (make i).serial? = some i)
    (hserial' : ∀ i, (make' i).serial? = some i)
    (hobject : ∀ q, p ≤ q → ∀ i j, q.object (make i) (make' j) →
      Value.Corresponds q (make i) (make' j)) :
    Corresponds p Value.Corresponds (fresh do return make (← Fresh.serial))
      (fresh do return make' (← Fresh.serial)) := by
  intro m m' hm
  have hnew : ∀ v v', p.object v v' →
      v.serial? ≠ (make m.serial).serial? ∧ v'.serial? ≠ (make' m'.serial).serial? := by
    intro v v' hv
    obtain ⟨⟨i, hi, hvi⟩, j, hj, hvj⟩ := hm.made v v' hv
    rw [hserial, hserial', hvi, hvj]
    exact ⟨fun h => Nat.ne_of_lt hi (Option.some.inj h),
      fun h => Nat.ne_of_lt hj (Option.some.inj h)⟩
  have hle := p.le_addObject hnew
  refine ⟨_, hle, .ok (hobject _ hle _ _ (.inr ⟨rfl, rfl⟩)) ⟨hm.heap.mono hle rfl, ?_, hm.sink⟩⟩
  rintro v v' (hv | ⟨rfl, rfl⟩)
  · obtain ⟨⟨i, hi, hvi⟩, j, hj, hvj⟩ := hm.made v v' hv
    exact ⟨⟨i, Nat.lt_succ_of_lt hi, hvi⟩, j, Nat.lt_succ_of_lt hj, hvj⟩
  · exact ⟨⟨_, Nat.lt_succ_self _, hserial _⟩, _, Nat.lt_succ_self _, hserial' _⟩

theorem corresponds_cons {a a' d d' : Value} (ha : Value.Corresponds p a a')
    (hd : Value.Corresponds p d d') :
    Corresponds p Value.Corresponds (fresh (Value.cons a d)) (fresh (Value.cons a' d')) :=
  corresponds_new (fun _ => rfl) (fun _ => rfl)
    fun _ hpq _ _ ho => .pair ho (ha.mono hpq) (hd.mono hpq)

theorem corresponds_function {params params' body body' : Value} {f f' : FrameId}
    (hparams : Value.Corresponds p params params') (hbody : Value.Corresponds p body body')
    (hf : p.frame f f') :
    Corresponds p Value.Corresponds (fresh (Value.function params body f))
      (fresh (Value.function params' body' f')) :=
  corresponds_new (fun _ => rfl) (fun _ => rfl)
    fun _ hpq _ _ ho => .closure ho (hpq.2 _ _ hf) (hparams.mono hpq) (hbody.mono hpq)

theorem corresponds_ofList {vs vs' : List Value} (hvs : List.Forall₂ (Value.Corresponds p) vs vs')
    {tail tail' : Value} (htail : Value.Corresponds p tail tail') :
    Corresponds p Value.Corresponds (fresh (Value.ofList vs tail))
      (fresh (Value.ofList vs' tail')) := by
  induction hvs with
  | nil => exact corresponds_pure htail
  | cons hv _ ih =>
      rw [Value.ofList, Value.ofList, fresh_bind, fresh_bind]
      exact ih.bind fun q hpq rest rest' hrest => corresponds_cons (hv.mono hpq) hrest

theorem corresponds_ofDatum (d : Datum) :
    Corresponds p Value.Corresponds (fresh (Value.ofDatum d)) (fresh (Value.ofDatum d)) := by
  induction d generalizing p with
  | number n => exact corresponds_pure (.number n)
  | symbol s => exact corresponds_pure (.symbol s)
  | cons a d iha ihd =>
      rw [Value.ofDatum, fresh_bind]
      refine iha.bind fun q hpq v v' hv => ?_
      rw [fresh_bind, fresh_bind]
      exact ihd.bind fun q' hqq' w w' hw => corresponds_cons (hv.mono hqq') hw

end Run

end Lisp
