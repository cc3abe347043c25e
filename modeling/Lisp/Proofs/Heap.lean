import Lisp.Heap

/-! # What a heap keeps

`Heap.BindsOnly` says how far two heaps, one later than the other, may differ: all frames of the
first are still there, and only in one of them may names be bound, out of a given set. -/

namespace Lisp

/-! ## Binding a name -/

theorem Bindings.lookup_put (x y : Symbol) (v : Value) (bs : Bindings) :
    (bs.put x v).lookup y = if y = x then some v else bs.lookup y := by
  induction bs with
  | nil =>
      by_cases h : y = x
      · simp [put, h]
      · have hyx : (y == x) = false := by simpa using h
        simp [put, List.lookup_cons, h, hyx]
  | cons b bs ih =>
      obtain ⟨z, w⟩ := b
      rw [put]
      by_cases hz : z = x
      · subst z
        by_cases h : y = x
        · simp [h]
        · have hyx : (y == x) = false := by simpa using h
          simp [List.lookup_cons, h, hyx]
      · by_cases hy : y = z
        · subst y
          simp [hz]
        · have hyz : (y == z) = false := by simpa using hy
          simp only [hz, ite_false, List.lookup_cons, hyz]
          exact ih

theorem Frame.lookup?_define (frame : Frame) (x y : Symbol) (v : Value) :
    (frame.define x v).lookup? y = if y = x then some v else frame.lookup? y :=
  Bindings.lookup_put x y v frame.bindings

@[simp] theorem Frame.parent_define (frame : Frame) (x : Symbol) (v : Value) :
    (frame.define x v).parent = frame.parent := rfl

namespace Heap

variable {h h₁ h₂ : Heap} {f g : FrameId}

@[simp] theorem size_define (x : Symbol) (v : Value) :
    (h.define f x v).frames.size = h.frames.size :=
  Array.size_modify

theorem frame?_define (x : Symbol) (v : Value) :
    (h.define f x v).frame? g =
      if f = g then (h.frame? g).map (·.define x v) else h.frame? g := by
  simp only [frame?, define, Array.getElem?_modify]

@[simp] theorem size_push (frame : Frame) :
    (h.push frame).2.frames.size = h.frames.size + 1 :=
  Array.size_push frame

theorem frame?_push_of_lt (frame : Frame) (hg : g < h.frames.size) :
    (h.push frame).2.frame? g = h.frame? g := by
  simp only [frame?, push]
  rw [Array.getElem?_push_lt hg, Array.getElem?_eq_getElem hg]

theorem frame?_push_size (frame : Frame) :
    (h.push frame).2.frame? h.frames.size = some frame :=
  Array.getElem?_push_size

theorem parent?_push_size (frame : Frame) :
    (h.push frame).2.parent? h.frames.size = frame.parent := by
  rw [parent?, frame?_push_size, Option.bind_some]

theorem local?_push_size (frame : Frame) (x : Symbol) :
    (h.push frame).2.local? h.frames.size x = frame.lookup? x := by
  rw [local?, frame?_push_size, Option.bind_some]

@[simp] theorem parent?_define (x : Symbol) (v : Value) :
    (h.define f x v).parent? g = h.parent? g := by
  rw [parent?, frame?_define]
  split
  · cases hg : h.frame? g <;> simp [parent?, hg]
  · rfl

theorem local?_define (x y : Symbol) (v : Value) (hf : f < h.frames.size) :
    (h.define f x v).local? f y = if y = x then some v else h.local? f y := by
  have hframe : h.frame? f = some h.frames[f] := Array.getElem?_eq_getElem hf
  simp [local?, frame?_define, hframe, Frame.lookup?_define]

theorem lt_size_of_local? {x : Symbol} (hx : (h.local? f x).isSome) : f < h.frames.size := by
  refine Nat.lt_of_not_le fun hf => ?_
  have hnone : h.frame? f = none := Array.getElem?_eq_none hf
  simp [local?, hnone] at hx

theorem local?_congr (x : Symbol) (hf : h₁.frame? f = h.frame? f) :
    h₁.local? f x = h.local? f x := by
  rw [local?, local?, hf]

theorem parent?_congr (hf : h₁.frame? f = h.frame? f) : h₁.parent? f = h.parent? f := by
  rw [parent?, parent?, hf]

/-! ## Heaps that differ in one frame -/

/-- The second heap has all frames of the first as they were, except that in `f` names out of
`targets` may have been bound, and may have further frames. -/
structure BindsOnly (f : FrameId) (targets : Symbol → Prop) (h h₁ : Heap) : Prop where
  size_le : h.frames.size ≤ h₁.frames.size
  frame_eq : ∀ g < h.frames.size, g ≠ f → h₁.frame? g = h.frame? g
  parent_eq : f < h.frames.size → h₁.parent? f = h.parent? f
  bound : ∀ x, (h.local? f x).isSome → (h₁.local? f x).isSome
  local_eq : f < h.frames.size → ∀ x, ¬ targets x → h₁.local? f x = h.local? f x

namespace BindsOnly

variable {targets targets' : Symbol → Prop}

theorem refl (h : Heap) : BindsOnly f targets h h :=
  ⟨Nat.le_refl _, fun _ _ _ => rfl, fun _ => rfl, fun _ hx => hx, fun _ _ _ => rfl⟩

theorem trans (h₁₂ : BindsOnly f targets h h₁) (h₂₃ : BindsOnly f targets h₁ h₂) :
    BindsOnly f targets h h₂ := by
  refine ⟨Nat.le_trans h₁₂.size_le h₂₃.size_le, ?_, ?_, fun x hx => h₂₃.bound x (h₁₂.bound x hx), ?_⟩
  · intro g hg hne
    rw [h₂₃.frame_eq g (Nat.lt_of_lt_of_le hg h₁₂.size_le) hne, h₁₂.frame_eq g hg hne]
  · intro hf
    rw [h₂₃.parent_eq (Nat.lt_of_lt_of_le hf h₁₂.size_le), h₁₂.parent_eq hf]
  · intro hf x hx
    rw [h₂₃.local_eq (Nat.lt_of_lt_of_le hf h₁₂.size_le) x hx, h₁₂.local_eq hf x hx]

theorem mono (hsub : ∀ x, targets x → targets' x) (hb : BindsOnly f targets h h₁) :
    BindsOnly f targets' h h₁ :=
  { hb with local_eq := fun hf x hx => hb.local_eq hf x fun ht => hx (hsub x ht) }

theorem define (x : Symbol) (v : Value) (hx : targets x) :
    BindsOnly f targets h (h.define f x v) := by
  refine ⟨Nat.le_of_eq (size_define x v).symm, ?_, ?_, ?_, ?_⟩
  · intro g _ hne
    rw [frame?_define, if_neg hne.symm]
  · exact fun _ => parent?_define x v
  · intro y hy
    rw [local?_define x y v (lt_size_of_local? hy)]
    split
    · rfl
    · exact hy
  · intro hf y hy
    have hne : y ≠ x := fun he => hy (he ▸ hx)
    rw [local?_define x y v hf, if_neg hne]

/-- Whatever is bound in a frame that was just added leaves the older frames as they were. -/
theorem of_push {frame : Frame} (hb : BindsOnly h.frames.size targets' (h.push frame).2 h₁) :
    ∀ g < h.frames.size, h₁.frame? g = h.frame? g := by
  intro g hg
  rw [hb.frame_eq g (by rw [size_push]; omega) (Nat.ne_of_lt hg), frame?_push_of_lt frame hg]

/-- Heaps that agree on all older frames differ in none of them. -/
theorem of_frame_eq (hsize : h.frames.size ≤ h₁.frames.size)
    (hframe : ∀ g < h.frames.size, h₁.frame? g = h.frame? g) : BindsOnly f targets h h₁ := by
  refine ⟨hsize, fun g hg _ => hframe g hg, fun hf => parent?_congr (hframe f hf), ?_, ?_⟩
  · intro x hx
    rw [local?_congr x (hframe f (lt_size_of_local? hx))]
    exact hx
  · exact fun hf x _ => local?_congr x (hframe f hf)

theorem push (frame : Frame) : BindsOnly f targets h (h.push frame).2 := by
  refine of_frame_eq ?_ fun g hg => frame?_push_of_lt frame hg
  rw [size_push]
  omega

end BindsOnly

end Heap

end Lisp
