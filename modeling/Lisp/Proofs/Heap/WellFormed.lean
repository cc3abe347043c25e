import Lisp.Proofs.Moment

/-! # Heaps that stay well-formed

Frames refer to their parents and functions to the frames they were made in, and a frame may bind a
function that was made in it. Still every parent is older than its children, so a walk from a frame
outwards ends though nothing bounds it, and no function refers to a frame that is not there. -/

namespace Lisp

namespace Heap

/-! ## Walks -/

/-- A walk from a frame outwards, from one result to another. At each frame `visit` goes on from the
result so far and says whether to go on to the parent; nothing else ends the walk. -/
inductive Walks {α : Type} (h : Heap) (visit : α → FrameId → α × Bool) : α → FrameId → α → Prop
  | stop {a b : α} {f : FrameId} : visit a f = (b, false) → Walks h visit a f b
  | root {a b : α} {f : FrameId} : visit a f = (b, true) → h.parent? f = none → Walks h visit a f b
  | parent {a b c : α} {f g : FrameId} : visit a f = (b, true) → h.parent? f = some g →
      Walks h visit b g c → Walks h visit a f c

/-- Visits frames in order until a visit says to stop. -/
def visitAll {α : Type} (visit : α → FrameId → α × Bool) : α → List FrameId → α
  | a, [] => a
  | a, g :: gs => if (visit a g).2 then visitAll visit (visit a g).1 gs else (visit a g).1

/-- Where parents are older than their children, a walk ends once it has visited the chain. -/
theorem walks_chain {α : Type} {h : Heap} (hage : ∀ f g, h.parent? f = some g → g < f)
    (visit : α → FrameId → α × Bool) (a : α) {f : FrameId} (hf : f < h.frames.size) :
    h.Walks visit a f (visitAll visit a (h.chain f)) := by
  induction f using Nat.strongRecOn generalizing a with
  | ind f ih =>
      rw [chain_of_parent hf (hage f), visitAll]
      cases hvisit : visit a f with
      | mk b goes =>
          cases goes with
          | false => exact .stop hvisit
          | true =>
              cases hparent : h.parent? f with
              | none => exact .root hvisit hparent
              | some g =>
                  have hlt : g < f := hage f g hparent
                  exact .parent hvisit hparent (ih g hlt b (Nat.lt_trans hlt hf))

/-- Looks at each frame until there is an answer. -/
def search {α : Type} (look : FrameId → Option α) : Option α → FrameId → Option α × Bool :=
  fun _ g => (look g, (look g).isNone)

theorem visitAll_search {α : Type} (look : FrameId → Option α) (gs : List FrameId) :
    visitAll (search look) none gs = gs.findSome? look := by
  induction gs with
  | nil => rfl
  | cons g gs ih =>
      rw [visitAll, search, List.findSome?_cons]
      cases look g with
      | none => exact ih
      | some a => rfl

/-- Adds what each frame has to what was gathered before. -/
def gather {α : Type} (add : α → FrameId → α) : α → FrameId → α × Bool :=
  fun a g => (add a g, true)

theorem visitAll_gather {α : Type} (add : α → FrameId → α) (a : α) (gs : List FrameId) :
    visitAll (gather add) a gs = gs.foldl add a := by
  induction gs generalizing a with
  | nil => rfl
  | cons g gs ih => exact ih (add a g)

/-- The frame itself, if it binds the name. -/
def binder? (h : Heap) (x : Symbol) (g : FrameId) : Option FrameId :=
  if (h.local? g x).isSome then some g else none

/-- The bindings of a frame put to those that hide them. -/
def reveal (h : Heap) (visible : Bindings) (g : FrameId) : Bindings :=
  ((h.frame? g).elim [] Frame.bindings).foldl (fun bs b => bs.insertNew b.1 b.2) visible

theorem holder?_eq_findSome? (h : Heap) (f : FrameId) (x : Symbol) :
    h.holder? f x = (h.chain f).findSome? (h.binder? x) := by
  rw [holder?, ← List.findSome?_guard]
  congr 1

theorem bindings_eq_foldl (h : Heap) (f : FrameId) :
    h.bindings f = (h.chain f).foldl h.reveal [] := by
  rw [bindings, Bindings.sorted, List.foldl_flatMap]
  rfl

/-- The walks of look-up, assignment and listing from a frame end, and these are what they come to. -/
structure WalksEnd (h : Heap) (f : FrameId) : Prop where
  lookup : ∀ x, ∃ value, h.Walks (search fun g => h.local? g x) none f value ∧
    h.lookup f x = match value with
      | some v => .ok v
      | none => .error (.unbound x)
  set : ∀ x, ∃ holder, h.Walks (search (h.binder? x)) none f holder ∧
    ∀ v, h.set f x v = match holder with
      | some g => .ok (h.define g x v)
      | none => .error (.unbound x)
  bindings : h.Walks (gather h.reveal) [] f (h.bindings f)

theorem walksEnd_of_older {h : Heap} (hage : ∀ f g, h.parent? f = some g → g < f) {f : FrameId}
    (hf : f < h.frames.size) : h.WalksEnd f := by
  refine ⟨fun x => ⟨h.lookup? f x, ?_, rfl⟩, fun x => ⟨h.holder? f x, ?_, fun v => rfl⟩, ?_⟩
  · rw [lookup?, ← visitAll_search]
    exact walks_chain hage _ none hf
  · rw [holder?_eq_findSome?, ← visitAll_search]
    exact walks_chain hage _ none hf
  · rw [bindings_eq_foldl, ← visitAll_gather]
    exact walks_chain hage _ [] hf

/-! ## References -/

/-- Every function in the value was made in a frame that is there. -/
def Grounds (h : Heap) (v : Value) : Prop :=
  ∀ i params body g, v.Contains (.closure i params body g) → g < h.frames.size

end Heap

/-- Parents are there and older than their children, and so are the frames of all functions that
the frames bind or that are at hand. -/
structure Machine.WellFormed (m : Machine) (held : List Value) : Prop where
  parent : ∀ f g, m.heap.parent? f = some g → g < f ∧ f < m.heap.frames.size
  bound : ∀ f x v, m.heap.local? f x = some v → m.heap.Grounds v
  held : ∀ v ∈ held, m.heap.Grounds v

theorem Value.Corresponds.grounds {p : Pairing} {v : Value} (hv : Corresponds p v v) {h h' : Heap}
    (hh : h.Corresponds p h') : h.Grounds v := by
  intro i params body g hg
  cases hv.of_contains hg with
  | closure _ hframe _ _ => exact (hh.lt_size hframe).1

theorem Machine.SoundUnder.wellFormed {p : Pairing} {m : Machine} {held : List Value}
    (hm : m.SoundUnder p held) : m.WellFormed held := by
  refine ⟨fun f g hg => ?_, fun f x v hv => ?_, fun v hv => ?_⟩
  · have hf : f < m.heap.frames.size := by
      refine Nat.lt_of_not_le fun hle => ?_
      have hnone : m.heap.frame? f = none := Array.getElem?_eq_none hle
      simp [Heap.parent?, hnone] at hg
    exact ⟨(hm.machine.heap.parent_lt (hm.frame f hf)).1 g hg, hf⟩
  · exact (hm.local? hv).grounds hm.machine.heap
  · exact (hm.value v hv).grounds hm.machine.heap

/-- At every moment of every run the heap is well-formed: parents are frames made before their
children, so chains of parents end, and every function that is bound, stands in something bound or
is at hand has its frame. Walks from any frame outwards end though nothing bounds them. -/
theorem moment_wellFormed {m : Machine} {held : List Value} (h : Moment m held) :
    m.WellFormed held ∧ WellFounded (fun g f => m.heap.parent? f = some g) ∧
      ∀ f < m.heap.frames.size, m.heap.WalksEnd f := by
  obtain ⟨p, hm⟩ := h.sound
  have hformed := hm.wellFormed
  have hlt : ∀ f g, m.heap.parent? f = some g → g < f := fun f g hg => (hformed.parent f g hg).1
  exact ⟨hformed, Subrelation.wf (hlt _ _) Nat.lt_wfRel.wf, fun f hf =>
    Heap.walksEnd_of_older hlt hf⟩

/-- A function is defined in an inner frame, which then binds what refers back to it. -/
theorem moment_wellFormed_cycle :
    let name (s : String) : Datum := .symbol (.ofName s)
    let list (ds : List Datum) : Datum := .ofList ds .nil
    let definition : Datum := list [name "DEFUN", name "F", list [name "X"], name "F"]
    let m₁ := (do let _ ← Run.push .global; return Value.nil : Run Value).after (.blank none)
    let m₂ := (do let _ ← Run.push (.empty (some 0)); return Value.nil : Run Value).after m₁
    let m₃ := (Run.fresh (Value.ofDatum definition)).after m₂
    let e := ((Value.ofDatum definition).run m₂.serial).1
    let m := (evaluate .bounded 0 e 1).after m₃
    ∃ held i params body, m.heap.local? 1 (.ofName "F") = some (.closure i params body 1) ∧
      m.heap.parent? 1 = some 0 ∧ m.WellFormed (.closure i params body 1 :: held) ∧
      m.heap.WalksEnd 1 := by
  intro name list definition m₁ m₂ m₃ e m
  have h₁ : Reachable m₁ [.nil] := .perform (.blank none) .global
  have h₂ : Reachable m₂ [.nil, .nil] := .perform h₁ (.child (by decide +kernel))
  have h₃ : Reachable m₃ [e, .nil, .nil] := .perform h₂ (.datum definition)
  have hm : Reachable m _ :=
    .perform h₃ (.evaluate .bounded 0 (List.mem_cons_self ..) (by decide +kernel))
  have hbound : m.heap.local? 1 (.ofName "F") =
      some (.closure 5 (.pair 0 (.symbol (.ofName "X")) .nil) (.symbol (.ofName "F")) 1) := by
    decide +kernel
  obtain ⟨hformed, -, hwalks⟩ := moment_wellFormed (.bound (.between hm) hbound)
  exact ⟨_, _, _, _, hbound, by decide +kernel, hformed, hwalks 1 (by decide +kernel)⟩

end Lisp
