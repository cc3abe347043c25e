import Lisp.Proofs.Heap.Scope
import Mathlib.Data.String.Basic

/-! # The list of visible bindings

A look-up stops at the first frame that binds the name. The list of all visible bindings is made
the other way: every frame of the chain adds its bindings, unless the name is there already, each at
its place by name. Both say the same of every name: `Heap.lookup_bindings`. -/

namespace Lisp

namespace Bindings

/-- Every name stands before those after it in the order of code points, and so none stands there
twice. -/
def Ordered (bs : Bindings) : Prop :=
  bs.Pairwise fun a b => a.1.name < b.1.name

theorem name_lt_of_not_lt {x y : Symbol} (hlt : ¬x.name < y.name) (hne : x ≠ y) :
    y.name < x.name :=
  lt_of_le_of_ne (not_lt.mp hlt) fun heq => hne (Symbol.ext_name heq.symm)

/-! ## Adding one binding -/

variable {bs : Bindings} {x : Symbol} {v : Value}

theorem mem_insertNew {b : Symbol × Value} (hb : b ∈ bs.insertNew x v) : b = (x, v) ∨ b ∈ bs := by
  induction bs with
  | nil => simpa [insertNew] using hb
  | cons c bs ih =>
      rw [insertNew] at hb
      split at hb
      · simpa using hb
      · split at hb
        · exact .inr hb
        · simp only [List.mem_cons] at hb ⊢
          rcases hb with hb | hb
          · exact .inr (.inl hb)
          · exact (ih hb).imp_right .inr

theorem Ordered.insertNew (h : bs.Ordered) (x : Symbol) (v : Value) :
    (bs.insertNew x v).Ordered := by
  induction bs with
  | nil => simp [Bindings.insertNew, Ordered]
  | cons c bs ih =>
      obtain ⟨hc, hbs⟩ := List.pairwise_cons.mp h
      rw [Bindings.insertNew]
      split
      · rename_i hlt
        refine List.pairwise_cons.mpr ⟨fun b hb => ?_, h⟩
        rcases List.mem_cons.mp hb with rfl | hb
        · exact hlt
        · exact hlt.trans (hc b hb)
      · rename_i hlt
        split
        · exact h
        · rename_i hne
          refine List.pairwise_cons.mpr ⟨fun b hb => ?_, ih hbs⟩
          rcases mem_insertNew hb with rfl | hb
          · exact name_lt_of_not_lt hlt hne
          · exact hc b hb

/-- A name before the first one is not in the list. -/
theorem Ordered.lookup_eq_none {b : Symbol × Value} (h : Ordered (b :: bs))
    (hx : x.name < b.1.name) : List.lookup x (b :: bs) = none := by
  refine List.lookup_eq_none_iff.mpr fun c hc => ?_
  have hlt : x.name < c.1.name := by
    rcases List.mem_cons.mp hc with rfl | hc
    · exact hx
    · exact hx.trans ((List.pairwise_cons.mp h).1 c hc)
  have hne : x ≠ c.1 := fun heq => hlt.ne (congrArg Symbol.name heq)
  simpa using hne

/-- A name that is bound keeps its binding, and only the name added is bound besides. -/
theorem Ordered.lookup_insertNew (h : bs.Ordered) (x : Symbol) (v : Value) (y : Symbol) :
    (bs.insertNew x v).lookup y = (bs.lookup y).or (List.lookup y [(x, v)]) := by
  induction bs with
  | nil => simp [Bindings.insertNew]
  | cons c bs ih =>
      obtain ⟨hc, hbs⟩ := List.pairwise_cons.mp h
      rw [Bindings.insertNew]
      split
      · rename_i hlt
        by_cases hy : y = x
        · subst hy
          rw [h.lookup_eq_none hlt]
          simp
        · have hyx : (y == x) = false := by simpa using hy
          simp [List.lookup_cons, hyx]
      · split
        · rename_i heq
          subst heq
          rw [List.lookup_cons, List.lookup_cons]
          cases y == c.1 <;> simp
        · rw [List.lookup_cons, List.lookup_cons, ih hbs]
          cases y == c.1 <;> rfl

/-! ## Sorting -/

/-- Bindings put one after the other into an ordered list come behind those in it. -/
theorem foldl_insertNew (bs : Bindings) {acc : Bindings} (hacc : acc.Ordered) :
    (bs.foldl (fun sorted b => sorted.insertNew b.1 b.2) acc).Ordered ∧
      ∀ y, (bs.foldl (fun sorted b => sorted.insertNew b.1 b.2) acc).lookup y =
        (acc.lookup y).or (bs.lookup y) := by
  induction bs generalizing acc with
  | nil => exact ⟨hacc, by simp⟩
  | cons b bs ih =>
      obtain ⟨hordered, hlookup⟩ := ih (hacc.insertNew b.1 b.2)
      refine ⟨hordered, fun y => ?_⟩
      rw [List.foldl_cons, hlookup, hacc.lookup_insertNew, Option.or_assoc, ← List.lookup_append]
      rfl

theorem ordered_sorted (bs : Bindings) : bs.sorted.Ordered :=
  (foldl_insertNew bs List.Pairwise.nil).1

theorem lookup_sorted (bs : Bindings) (x : Symbol) : bs.sorted.lookup x = bs.lookup x :=
  (foldl_insertNew bs List.Pairwise.nil).2 x

/-! ## Ordered lists as sets of bindings -/

theorem Ordered.mem_iff_lookup (h : bs.Ordered) : (x, v) ∈ bs ↔ bs.lookup x = some v := by
  induction bs with
  | nil => simp
  | cons b bs ih =>
      obtain ⟨hb, hbs⟩ := List.pairwise_cons.mp h
      rw [List.mem_cons, ih hbs, List.lookup_cons]
      by_cases hx : x = b.1
      · have hnone : bs.lookup x = none := by
          refine List.lookup_eq_none_iff.mpr fun c hc => ?_
          have hne : x ≠ c.1 := fun heq => (hb c hc).ne (congrArg Symbol.name (hx.symm.trans heq))
          simpa using hne
        have hxb : (x == b.1) = true := by simpa using hx
        rw [hnone, hxb]
        simp [Prod.ext_iff, hx, eq_comm]
      · have hxb : (x == b.1) = false := by simpa using hx
        rw [hxb]
        simp [Prod.ext_iff, hx]

theorem Ordered.nodup (h : bs.Ordered) : bs.Nodup :=
  List.Pairwise.imp (fun hlt heq => hlt.ne (congrArg (fun b => b.1.name) heq)) h

/-- An ordered list is determined by what is in it. -/
theorem Ordered.eq_of_mem_iff {bs' : Bindings} (h : bs.Ordered) (h' : bs'.Ordered)
    (hmem : ∀ x v, (x, v) ∈ bs ↔ (x, v) ∈ bs') : bs = bs' := by
  have hperm : bs.Perm bs' :=
    (List.perm_ext_iff_of_nodup h.nodup h'.nodup).mpr fun b => hmem b.1 b.2
  exact hperm.eq_of_pairwise (fun a b _ _ hab hba => absurd hab hba.asymm) h h'

end Bindings

namespace Heap

/-- The list binds a name to what a look-up finds. -/
theorem lookup_bindings (h : Heap) (f : FrameId) (x : Symbol) :
    (h.bindings f).lookup x = h.lookup? f x := by
  rw [bindings, Bindings.lookup_sorted, lookup?]
  induction h.chain f with
  | nil => rfl
  | cons g gs ih =>
      have hframe : ((h.frame? g).elim [] Frame.bindings).lookup x = h.local? g x := by
        cases hg : h.frame? g <;> simp [local?, hg, Frame.lookup?]
      rw [List.flatMap_cons, List.lookup_append, ih, hframe, List.findSome?_cons]
      cases h.local? g x <;> rfl

theorem ordered_bindings (h : Heap) (f : FrameId) : (h.bindings f).Ordered :=
  Bindings.ordered_sorted _

theorem mem_bindings_iff {h : Heap} {f : FrameId} {x : Symbol} {v : Value} :
    (x, v) ∈ h.bindings f ↔ h.lookup f x = .ok v := by
  rw [(h.ordered_bindings f).mem_iff_lookup, lookup_bindings, lookup_eq_ok_iff]

end Heap

/-- At every moment of every run the list of bindings that are visible from a frame is strictly
ordered by name and holds exactly what look-ups from there find, which is what the nearest frames
bind. It is the only such list, in whatever order frames keep their bindings. -/
theorem moment_bindings_agree_with_lookup {m : Machine} {held : List Value} (hm : Moment m held)
    {f : FrameId} (hf : f < m.heap.frames.size) :
    (m.heap.bindings f).Ordered ∧
    (∀ x v, (x, v) ∈ m.heap.bindings f ↔ m.heap.lookup f x = .ok v) ∧
    (∀ x v, m.heap.lookup f x = .ok v ↔
      ∃ g, m.heap.Nearest x f g ∧ m.heap.local? g x = some v) ∧
    ∀ bs : Bindings, bs.Ordered → (∀ x v, (x, v) ∈ bs ↔ m.heap.lookup f x = .ok v) →
      bs = m.heap.bindings f := by
  refine ⟨m.heap.ordered_bindings f, fun x v => Heap.mem_bindings_iff, fun x v => ?_, ?_⟩
  · rw [Heap.lookup_eq_ok_iff]
    exact Heap.lookup?_eq_some_iff hm.parent_lt hf
  · intro bs hbs hmem
    refine hbs.eq_of_mem_iff (m.heap.ordered_bindings f) fun x v => ?_
    rw [hmem, Heap.mem_bindings_iff]

/-- A frame that hides one of two bindings of its parent, made in the other order. -/
theorem moment_bindings_agree_with_lookup_hidden :
    let a : Symbol := .ofName "A"
    let b : Symbol := .ofName "B"
    let add (frame : Frame) : Run Value := do let _ ← Run.push frame; return .nil
    let bind (f : FrameId) (x : Symbol) (v : Value) : Run Value := do Run.define f x v; return .nil
    let pair : Value := .pair 0 (.number 1) .nil
    let frames := (add (.empty (some 0))).after ((add (.empty none)).after (.blank none))
    let made := (Run.fresh (Value.ofDatum (.cons (.number 1) .nil))).after frames
    let m := (bind 1 a pair).after ((bind 0 a .nil).after ((bind 0 b .nil).after made))
    ∃ held, Moment m held ∧ m.heap.bindings 1 = [(a, pair), (b, .nil)] ∧
      (m.heap.bindings 1).Ordered ∧ m.heap.lookup 1 a = .ok pair ∧
      m.heap.lookup 1 b = .ok .nil := by
  intro a b add bind pair frames made m
  have h₁ : Reachable ((add (.empty none)).after (.blank none)) [.nil] :=
    .perform (.blank none) .root
  have h₂ : Reachable frames [.nil, .nil] := .perform h₁ (.child (by decide +kernel))
  have h₃ : Reachable made [pair, .nil, .nil] := .perform h₂ (.datum (.cons (.number 1) .nil))
  have h₄ : Reachable _ [.nil, pair, .nil, .nil] :=
    .perform h₃ (.define b (f := 0) (v := .nil) (by decide +kernel) (by decide +kernel))
  have h₅ : Reachable _ [.nil, .nil, pair, .nil, .nil] :=
    .perform h₄ (.define a (f := 0) (v := .nil) (by decide +kernel) (by decide +kernel))
  have hm : Reachable m [.nil, .nil, .nil, pair, .nil, .nil] :=
    .perform h₅ (.define a (f := 1) (v := pair) (by decide +kernel) (by decide +kernel))
  have hlist : m.heap.bindings 1 = [(a, pair), (b, .nil)] := by decide +kernel
  obtain ⟨hordered, hmem, -, -⟩ :=
    moment_bindings_agree_with_lookup (.between hm) (f := 1) (by decide +kernel)
  refine ⟨_, .between hm, hlist, hordered, (hmem a pair).mp ?_, (hmem b .nil).mp ?_⟩
  · simp [hlist]
  · simp [hlist]

end Lisp
