import Lisp.Proofs.Heap.WellFormed

/-! # What a write changes for whom

A look-up goes from a frame to its parent, and on, until a frame binds the name. Frames are shared,
so a name that is bound anew in one frame is seen from every frame whose look-up gets that far, and
from no other: `Heap.lookup?_define_of_exposes` and `Heap.lookup?_define_of_not_exposes`. -/

namespace Lisp

namespace Heap

/-- A look-up of the name that starts at `f` gets to `g`: parents lead there, and no frame before
`g` binds the name. -/
inductive Exposes (h : Heap) (x : Symbol) : FrameId → FrameId → Prop
  | self (f : FrameId) : Exposes h x f f
  | parent {f p g : FrameId} : h.local? f x = none → h.parent? f = some p → Exposes h x p g →
      Exposes h x f g

/-- From `f` outwards, `g` is the nearest frame that binds the name. -/
structure Nearest (h : Heap) (x : Symbol) (f g : FrameId) : Prop where
  exposes : h.Exposes x f g
  binds : (h.local? g x).isSome

/-! ## One frame after the other -/

section Walk

variable {h : Heap} (hage : ∀ f g, h.parent? f = some g → g < f) {f g : FrameId}

include hage

/-- The frame itself is asked first, then its parent. -/
theorem lookup?_eq_or (hf : f < h.frames.size) (x : Symbol) :
    h.lookup? f x = (h.local? f x).or ((h.parent? f).bind fun p => h.lookup? p x) := by
  rw [lookup?, chain_of_parent hf (hage f), List.findSome?_cons]
  cases h.local? f x with
  | some v => rfl
  | none => cases h.parent? f <;> rfl

theorem lookup?_of_nearest {x : Symbol} (hf : f < h.frames.size) (hg : h.Nearest x f g) :
    h.lookup? f x = h.local? g x := by
  obtain ⟨hexposes, hbinds⟩ := hg
  induction hexposes with
  | self f =>
      obtain ⟨v, hv⟩ := Option.isSome_iff_exists.mp hbinds
      rw [lookup?_eq_or hage hf, hv, Option.some_or]
  | @parent f p g hlocal hparent _ ih =>
      have hp : p < h.frames.size := Nat.lt_trans (hage f p hparent) hf
      rw [lookup?_eq_or hage hf, hlocal, hparent, Option.none_or, Option.bind_some, ih hp hbinds]

/-- Whatever a look-up finds is bound in the nearest frame. -/
theorem exists_nearest_of_lookup? {x : Symbol} {v : Value} (hf : f < h.frames.size)
    (hv : h.lookup? f x = some v) : ∃ g, h.Nearest x f g ∧ h.local? g x = some v := by
  induction f using Nat.strongRecOn with
  | ind f ih =>
      rw [lookup?_eq_or hage hf] at hv
      cases hlocal : h.local? f x with
      | some w =>
          rw [hlocal, Option.some_or] at hv
          exact ⟨f, ⟨.self f, by simp [hlocal]⟩, by rw [hlocal, hv]⟩
      | none =>
          rw [hlocal, Option.none_or] at hv
          obtain ⟨p, hparent, hv⟩ := Option.bind_eq_some_iff.mp hv
          have hlt : p < f := hage f p hparent
          obtain ⟨g, hg, hbound⟩ := ih p hlt (Nat.lt_trans hlt hf) hv
          exact ⟨g, ⟨.parent hlocal hparent hg.exposes, hg.binds⟩, hbound⟩

theorem lookup?_eq_some_iff {x : Symbol} {v : Value} (hf : f < h.frames.size) :
    h.lookup? f x = some v ↔ ∃ g, h.Nearest x f g ∧ h.local? g x = some v := by
  constructor
  · exact exists_nearest_of_lookup? hage hf
  · rintro ⟨g, hg, hv⟩
    rw [lookup?_of_nearest hage hf hg, hv]

end Walk

theorem Nearest.unique {h : Heap} {x : Symbol} {f g g' : FrameId} (hg : h.Nearest x f g)
    (hg' : h.Nearest x f g') : g = g' := by
  obtain ⟨hexposes, hbinds⟩ := hg
  obtain ⟨hexposes', hbinds'⟩ := hg'
  induction hexposes with
  | self f =>
      cases hexposes' with
      | self _ => rfl
      | parent hlocal _ _ => simp [hlocal] at hbinds
  | parent hlocal hparent _ ih =>
      cases hexposes' with
      | self _ => simp [hlocal] at hbinds'
      | parent _ hparent' hrest =>
          cases hparent.symm.trans hparent'
          exact ih hbinds hrest

/-- A look-up finds something exactly if some frame on its way binds the name. -/
theorem lookup_eq_ok_iff {h : Heap} {f : FrameId} {x : Symbol} {v : Value} :
    h.lookup f x = .ok v ↔ h.lookup? f x = some v := by
  rw [lookup]
  cases h.lookup? f x <;> simp

theorem lookup_congr {h h' : Heap} {f : FrameId} {x : Symbol}
    (heq : h'.lookup? f x = h.lookup? f x) : h'.lookup f x = h.lookup f x := by
  rw [lookup, lookup, heq]

/-! ## Binding a name in a frame -/

section Define

variable {h : Heap} (hage : ∀ f g, h.parent? f = some g → g < f) {f g : FrameId} {x y : Symbol}

theorem local?_define_of_ne (v : Value) (hne : ¬(y = x ∧ g = f)) :
    (h.define f x v).local? g y = h.local? g y := by
  by_cases hg : g = f
  · subst hg
    by_cases hsize : g < h.frames.size
    · rw [local?_define x y v hsize, if_neg fun hy => hne ⟨hy, rfl⟩]
    · have hnone : h.frame? g = none := Array.getElem?_eq_none (Nat.le_of_not_lt hsize)
      simp [local?, frame?_define, hnone]
  · refine local?_congr y ?_
    rw [frame?_define, if_neg fun hfg => hg hfg.symm]

include hage

theorem parent_lt_define (v : Value) :
    ∀ f' g, (h.define f x v).parent? f' = some g → g < f' := by
  intro f' g hg
  rw [parent?_define] at hg
  exact hage f' g hg

theorem lookup?_define_self (v : Value) (hf : f < h.frames.size) :
    (h.define f x v).lookup? f x = some v := by
  rw [lookup?_eq_or (parent_lt_define hage v) (by simpa using hf), local?_define x x v hf,
    if_pos rfl, Option.some_or]

/-- A look-up that gets to the frame finds what was bound there. -/
theorem lookup?_define_of_exposes (v : Value) (hf : f < h.frames.size) (hg : g < h.frames.size)
    (hexposes : h.Exposes x g f) : (h.define f x v).lookup? g x = some v := by
  induction hexposes with
  | self f => exact lookup?_define_self hage v hf
  | @parent g p f hlocal hparent _ ih =>
      by_cases hgf : g = f
      · subst hgf
        exact lookup?_define_self hage v hf
      · have hp : p < h.frames.size := Nat.lt_trans (hage g p hparent) hg
        rw [lookup?_eq_or (parent_lt_define hage v) (by simpa using hg),
          local?_define_of_ne v fun heq => hgf heq.2, hlocal, parent?_define, hparent,
          Option.none_or, Option.bind_some, ih hf hp]

/-- Any other look-up finds what it found before. -/
theorem lookup?_define_of_not_exposes (v : Value) (hg : g < h.frames.size)
    (hne : ¬(y = x ∧ h.Exposes x g f)) : (h.define f x v).lookup? g y = h.lookup? g y := by
  induction g using Nat.strongRecOn with
  | ind g ih =>
      have hlocal : (h.define f x v).local? g y = h.local? g y := by
        refine local?_define_of_ne v ?_
        rintro ⟨rfl, rfl⟩
        exact hne ⟨rfl, .self g⟩
      rw [lookup?_eq_or (parent_lt_define hage v) (by simpa using hg), lookup?_eq_or hage hg,
        hlocal, parent?_define]
      cases hbound : h.local? g y with
      | some w => rfl
      | none =>
          cases hparent : h.parent? g with
          | none => rfl
          | some p =>
              have hlt : p < g := hage g p hparent
              refine ih p hlt (Nat.lt_trans hlt hg) ?_
              rintro ⟨rfl, hexposes⟩
              exact hne ⟨rfl, .parent hbound hparent hexposes⟩

end Define

/-! ## Assigning to a name -/

section Set

variable {h h' : Heap} (hage : ∀ f g, h.parent? f = some g → g < f) {f g : FrameId} {x : Symbol}

include hage

theorem holder?_eq_or (hf : f < h.frames.size) (x : Symbol) :
    h.holder? f x =
      if (h.local? f x).isSome then some f else (h.parent? f).bind fun p => h.holder? p x := by
  rw [holder?, chain_of_parent hf (hage f), List.find?_cons]
  cases h.local? f x with
  | some v => rfl
  | none => cases h.parent? f <;> rfl

theorem holder?_of_nearest (hf : f < h.frames.size) (hg : h.Nearest x f g) :
    h.holder? f x = some g := by
  obtain ⟨hexposes, hbinds⟩ := hg
  induction hexposes with
  | self f => rw [holder?_eq_or hage hf, if_pos hbinds]
  | @parent f p g hlocal hparent _ ih =>
      have hp : p < h.frames.size := Nat.lt_trans (hage f p hparent) hf
      rw [holder?_eq_or hage hf, hlocal, hparent, Option.bind_some, ih hp hbinds]
      rfl

theorem set_of_nearest (v : Value) (hf : f < h.frames.size) (hg : h.Nearest x f g) :
    h.set f x v = .ok (h.define g x v) := by
  rw [set, holder?_of_nearest hage hf hg]

end Set

theorem set_of_lookup?_none {h : Heap} {f : FrameId} {x : Symbol} (v : Value)
    (hnone : h.lookup? f x = none) : h.set f x v = .error (.unbound x) := by
  have hholder : h.holder? f x = none := by
    simpa [holder?, lookup?] using hnone
  rw [set, hholder]

/-! ## What is seen from everywhere -/

/-- After an assignment from `f` that succeeded, a look-up of the name finds the value if its
nearest frame is that of `f`, and any other look-up finds what it found before. One frame has
changed, and none binds a name that it did not bind. -/
structure Assigned (h : Heap) (f : FrameId) (x : Symbol) (v : Value) (h' : Heap) : Prop where
  frame_eq : ∃ g, h.Nearest x f g ∧ ∀ g', g' ≠ g → h'.frame? g' = h.frame? g'
  isSome_local? : ∀ g y, (h'.local? g y).isSome = (h.local? g y).isSome
  lookup_hit : ∀ f' < h.frames.size, (∃ g, h.Nearest x f g ∧ h.Nearest x f' g) →
    h'.lookup f' x = .ok v
  lookup_other : ∀ f' < h.frames.size, ∀ y, ¬(y = x ∧ ∃ g, h.Nearest x f g ∧ h.Nearest x f' g) →
    h'.lookup f' y = h.lookup f' y

/-- After a name was bound in `f`, a look-up of the name finds the value if it gets to `f`, and any
other look-up finds what it found before. -/
structure Defined (h : Heap) (f : FrameId) (x : Symbol) (v : Value) (h' : Heap) : Prop where
  frame_eq : ∀ g, g ≠ f → h'.frame? g = h.frame? g
  lookup_hit : ∀ f' < h.frames.size, h.Exposes x f' f → h'.lookup f' x = .ok v
  lookup_other : ∀ f' < h.frames.size, ∀ y, ¬(y = x ∧ h.Exposes x f' f) →
    h'.lookup f' y = h.lookup f' y

section Effects

variable {h : Heap} (hage : ∀ f g, h.parent? f = some g → g < f) {f g : FrameId} {x : Symbol}

include hage

theorem defined_define (v : Value) (hf : f < h.frames.size) :
    h.Defined f x v (h.define f x v) := by
  refine ⟨fun g hg => ?_, fun f' hf' hexposes => ?_, fun f' hf' y hne => ?_⟩
  · rw [frame?_define, if_neg hg.symm]
  · exact lookup_eq_ok_iff.mpr (lookup?_define_of_exposes hage v hf hf' hexposes)
  · exact lookup_congr (lookup?_define_of_not_exposes hage v hf' hne)

/-- An assignment binds the name in the nearest frame, where it is bound already, so the look-ups
that get there are those whose nearest frame it is. -/
theorem assigned_define (v : Value) (hg : h.Nearest x f g) :
    h.Assigned f x v (h.define g x v) := by
  have hsize : g < h.frames.size := lt_size_of_local? hg.binds
  have hdefined : h.Defined g x v (h.define g x v) := defined_define hage v hsize
  refine ⟨⟨g, hg, hdefined.frame_eq⟩, fun g' y => ?_, ?_, fun f' hf' y hne => ?_⟩
  · by_cases heq : y = x ∧ g' = g
    · obtain ⟨rfl, rfl⟩ := heq
      rw [local?_define y y v hsize, if_pos rfl, hg.binds]
      rfl
    · rw [local?_define_of_ne v heq]
  · rintro f' hf' ⟨g', hg', hnear⟩
    rw [hg'.unique hg] at hnear
    exact hdefined.lookup_hit f' hf' hnear.exposes
  · refine hdefined.lookup_other f' hf' y ?_
    rintro ⟨rfl, hexposes⟩
    exact hne ⟨rfl, g, hg, hexposes, hg.binds⟩

end Effects

end Heap

/-- A frame is younger than its parent. -/
theorem Moment.parent_lt {m : Machine} {held : List Value} (hm : Moment m held) (f g : FrameId)
    (h : m.heap.parent? f = some g) : g < f := by
  obtain ⟨p, hsound⟩ := hm.sound
  exact (hsound.wellFormed.parent f g h).1

/-- At every moment of every run: an assignment succeeds exactly if the name is bound where it
starts, and otherwise reports the name and leaves the machine as it was. Whoever looks a name up
afterwards, after an assignment as after a definition, sees the new value exactly if the look-up
gets to the one frame that was written. -/
theorem moment_writes_hit_one_frame {m : Machine} {held : List Value} (hm : Moment m held)
    {f : FrameId} (hf : f < m.heap.frames.size) (x : Symbol) (v : Value) :
    ((∃ m', (Run.set f x v).run m = .ok () m') ↔ ∃ w, m.heap.lookup f x = .ok w) ∧
    ((¬∃ w, m.heap.lookup f x = .ok w) →
      (Run.set f x v).run m = .error (.error (.unbound x)) m) ∧
    (∀ m', (Run.set f x v).run m = .ok () m' → m.heap.Assigned f x v m'.heap) ∧
    ∃ m', (Run.define f x v).run m = .ok () m' ∧ m.heap.Defined f x v m'.heap := by
  have hage : ∀ f g, m.heap.parent? f = some g → g < f := hm.parent_lt
  have hdefine : ∃ m', (Run.define f x v).run m = .ok () m' ∧ m.heap.Defined f x v m'.heap :=
    ⟨_, Run.run_define f x v m, Heap.defined_define hage v hf⟩
  cases hlookup : m.heap.lookup? f x with
  | none =>
      have hnone : ¬∃ w, m.heap.lookup f x = .ok w := by
        rintro ⟨w, hw⟩
        rw [Heap.lookup_eq_ok_iff, hlookup] at hw
        cases hw
      have hrun : (Run.set f x v).run m = .error (.error (.unbound x)) m := by
        rw [Run.run_set, Heap.set_of_lookup?_none v hlookup]
      refine ⟨⟨?_, fun hw => absurd hw hnone⟩, fun _ => hrun, ?_, hdefine⟩
      · rintro ⟨m', hm'⟩
        cases hrun.symm.trans hm'
      · intro m' hm'
        cases hrun.symm.trans hm'
  | some w =>
      have hsome : ∃ w, m.heap.lookup f x = .ok w := ⟨w, Heap.lookup_eq_ok_iff.mpr hlookup⟩
      obtain ⟨g, hg, -⟩ := Heap.exists_nearest_of_lookup? hage hf hlookup
      have hrun : (Run.set f x v).run m = .ok () { m with heap := m.heap.define g x v } := by
        rw [Run.run_set, Heap.set_of_nearest hage v hf hg]
      refine ⟨⟨fun _ => hsome, fun _ => ⟨_, hrun⟩⟩, fun hnone => absurd hsome hnone, ?_, hdefine⟩
      intro m' hm'
      cases hrun.symm.trans hm'
      exact Heap.assigned_define hage v hg

/-- Two frames under one that binds a name, of which the second binds it too: an assignment from the
first is seen from the outer frame and not from the second. -/
theorem moment_writes_hit_one_frame_siblings :
    let x : Symbol := .ofName "X"
    let add (frame : Frame) : Run Value := do let _ ← Run.push frame; return .nil
    let bind (f : FrameId) : Run Value := do Run.define f x (.number 1); return .nil
    let frames := (add (.empty (some 0))).after ((add (.empty (some 0))).after
      ((add (.empty none)).after (.blank none)))
    let m := (bind 2).after ((bind 0).after ((Run.fresh (Value.ofDatum (.number 1))).after frames))
    ∃ m', (Run.set 1 x (.number 7)).run m = .ok () m' ∧ m'.heap.lookup 1 x = .ok (.number 7) ∧
      m'.heap.lookup 0 x = .ok (.number 7) ∧ m'.heap.lookup 2 x = .ok (.number 1) ∧
      (Run.set 1 (.ofName "Y") (.number 7)).run m = .error (.error (.unbound (.ofName "Y"))) m := by
  intro x add bind frames m
  have h₁ : Reachable ((add (.empty none)).after (.blank none)) [.nil] :=
    .perform (.blank none) .root
  have h₂ : Reachable frames [.nil, .nil, .nil] :=
    .perform (.perform h₁ (.child (by decide +kernel))) (.child (by decide +kernel))
  have h₃ : Reachable _ [.number 1, .nil, .nil, .nil] := .perform h₂ (.datum (.number 1))
  have h₄ : Reachable _ [.nil, .number 1, .nil, .nil, .nil] :=
    .perform h₃ (.define x (f := 0) (v := .number 1) (by decide +kernel) (by decide +kernel))
  have hm : Reachable m [.nil, .nil, .number 1, .nil, .nil, .nil] :=
    .perform h₄ (.define x (f := 2) (v := .number 1) (by decide +kernel) (by decide +kernel))
  have hf : 1 < m.heap.frames.size := by decide +kernel
  have h0 : m.heap.Nearest x 0 0 := ⟨.self 0, by decide +kernel⟩
  have h1 : m.heap.Nearest x 1 0 :=
    ⟨.parent (by decide +kernel) (p := 0) (by decide +kernel) (.self 0), by decide +kernel⟩
  have h2 : m.heap.Nearest x 2 2 := ⟨.self 2, by decide +kernel⟩
  obtain ⟨hiff, -, hset, -⟩ := moment_writes_hit_one_frame (.between hm) hf x (.number 7)
  obtain ⟨m', hrun⟩ := hiff.mpr ⟨.number 1, by decide +kernel⟩
  have hassigned := hset m' hrun
  refine ⟨m', hrun, ?_, ?_, ?_, ?_⟩
  · exact hassigned.lookup_hit 1 hf ⟨0, h1, h1⟩
  · exact hassigned.lookup_hit 0 (by decide +kernel) ⟨0, h1, h0⟩
  · rw [hassigned.lookup_other 2 (by decide +kernel) x]
    · decide +kernel
    · rintro ⟨-, g, hg, hg'⟩
      cases hg.unique h1
      cases hg'.unique h2
  · obtain ⟨-, hunbound, -, -⟩ :=
      moment_writes_hit_one_frame (.between hm) hf (.ofName "Y") (.number 7)
    refine hunbound ?_
    rintro ⟨w, hw⟩
    have hnone : m.heap.lookup? 1 (.ofName "Y") = none := by decide +kernel
    rw [Heap.lookup_eq_ok_iff, hnone] at hw
    cases hw

end Lisp
