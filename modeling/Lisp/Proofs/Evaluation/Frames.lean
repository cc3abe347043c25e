import Lisp.Proofs.Heap
import Lisp.Proofs.Evaluation.Subevaluation

/-! # What evaluation may bind

An evaluation binds names in the frame it works in and in no other that was there before; a call
works in a frame of its own. The names it may bind stand in the expression, as targets of `SET`
and `DEFUN`. -/

namespace Lisp

/-! ## The names that an expression may bind -/

/-- `e.Within v` if `e` is `v`, or stands inside an element of the list `v`. -/
inductive Value.Within (e : Value) : Value → Prop
  | self : Within e e
  | element {v a : Value} : a ∈ v.elements → Within e a → Within e v

/-- A form `(SET x ...)` or `(DEFUN x ...)` stands in the expression. -/
def Value.Assigns (e : Value) (x : Symbol) : Prop :=
  ∃ form i j rest, (form = SpecialForm.set ∨ form = SpecialForm.defun) ∧
    Within (pair i (symbol (Builtin.symbol (.special form))) (pair j (symbol x) rest)) e

theorem Value.Assigns.of_element {v a : Value} {x : Symbol} (ha : a ∈ v.elements)
    (h : a.Assigns x) : v.Assigns x := by
  obtain ⟨form, i, j, rest, hform, hin⟩ := h
  exact ⟨form, i, j, rest, hform, .element ha hin⟩

theorem Builtin.name_of_named? {name : String} {b : Builtin} (h : named? name = some b) :
    b.name = name := by
  simpa using List.find?_some h

/-- A special form is recognised by its own symbol alone. -/
theorem Evaluator.eq_symbol_of_specialForm? {head : Value} {form : SpecialForm}
    (h : specialForm? head = some form) : head = .symbol (Builtin.symbol (.special form)) := by
  unfold specialForm? at h
  split at h
  · rename_i s
    split at h
    · rename_i form' hs
      cases h
      have hname : (Builtin.special form).name = s.name := Builtin.name_of_named? hs
      exact congrArg Value.symbol (Symbol.ext_name hname.symm)
    · cases h
  · cases h

/-! ## Computations that bind only in one frame -/

def Machine.BindsOnly (f : FrameId) (targets : Symbol → Prop) (m m' : Machine) : Prop :=
  m.heap.BindsOnly f targets m'.heap

instance (f : FrameId) (targets : Symbol → Prop) :
    IsPreorder Machine (Machine.BindsOnly f targets) where
  refl m := Heap.BindsOnly.refl m.heap
  trans _ _ _ h₁ h₂ := Heap.BindsOnly.trans h₁ h₂

section Operations

variable {α : Type} {f : FrameId} {targets targets' : Symbol → Prop}

theorem Run.Respects.bindsOnly_mono {c : Run α} (hsub : ∀ x, targets x → targets' x)
    (hc : Run.Respects (Machine.BindsOnly f targets) c) :
    Run.Respects (Machine.BindsOnly f targets') c :=
  fun m => Heap.BindsOnly.mono hsub (hc m)

theorem Run.fresh_bindsOnly (make : Fresh α) :
    Run.Respects (Machine.BindsOnly f targets) (Run.fresh make) :=
  fun m => Heap.BindsOnly.refl m.heap

theorem Run.emit_bindsOnly (e : Event) :
    Run.Respects (Machine.BindsOnly f targets) (Run.emit e) :=
  fun m => Heap.BindsOnly.refl m.heap

theorem Run.write_bindsOnly (text : String) :
    Run.Respects (Machine.BindsOnly f targets) (Run.write text) := by
  intro m
  rw [Run.after_write]
  exact Heap.BindsOnly.refl m.heap

theorem Run.define_bindsOnly {x : Symbol} (v : Value) (hx : targets x) :
    Run.Respects (Machine.BindsOnly f targets) (Run.define f x v) :=
  fun _ => Heap.BindsOnly.define x v hx

end Operations

namespace Evaluator

/-- The evaluator binds only in the frame it is given, and only names that the expression assigns. -/
def BindsLocally (ev : Evaluator) : Prop :=
  ∀ e f, Run.Respects (Machine.BindsOnly f e.Assigns) (ev e f)

variable {ev : Evaluator}

/-- Applying anything leaves every frame as it is: a function works in a new one. -/
theorem apply_frame? (hev : ev.BindsLocally) (function : Value) (args : List Value) (m : Machine) :
    m.heap.frames.size ≤ ((ev.apply function args).after m).heap.frames.size ∧
      ∀ g < m.heap.frames.size,
        ((ev.apply function args).after m).heap.frame? g = m.heap.frame? g := by
  cases function with
  | closure i params body frame =>
      rw [apply_closure]
      cases hopen : (openFrame params frame args).run m with
      | error s m₁ =>
          rw [Run.after_of_error (Run.run_bind_of_error hopen), openFrame_error hopen]
          exact ⟨Nat.le_refl _, fun _ _ => rfl⟩
      | ok g m₁ =>
          obtain ⟨rfl, new, hheap⟩ := openFrame_ok hopen
          rw [Run.after_bind_of_ok hopen]
          have hbody : m₁.heap.BindsOnly m.heap.frames.size body.Assigns
              ((ev body m.heap.frames.size).after m₁).heap := hev body m.heap.frames.size m₁
          rw [hheap] at hbody
          have hsize := hbody.size_le
          rw [Heap.size_push] at hsize
          exact ⟨by omega, hbody.of_push⟩
  | symbol s =>
      have hs : Run.Respects (Machine.BindsOnly m.heap.frames.size fun _ => False)
          (ev.apply (.symbol s) args) := by
        simp only [apply]
        split
        · exact (Run.respects_ofExcept _).bind fun make => Run.fresh_bindsOnly make
        · exact Run.respects_fail _
      exact ⟨(hs m).size_le, fun g hg => (hs m).frame_eq g hg (Nat.ne_of_lt hg)⟩
  | number n => exact ⟨Nat.le_refl _, fun _ _ => rfl⟩
  | pair i first rest => exact ⟨Nat.le_refl _, fun _ _ => rfl⟩

theorem apply_bindsOnly (hev : ev.BindsLocally) (f : FrameId) (targets : Symbol → Prop)
    (function : Value) (args : List Value) :
    Run.Respects (Machine.BindsOnly f targets) (ev.apply function args) :=
  fun m =>
    let ⟨hsize, hframe⟩ := apply_frame? hev function args m
    Heap.BindsOnly.of_frame_eq hsize hframe

section Forms

variable {f : FrameId} {targets : Symbol → Prop} {args : Value}

/-- What `SET` does once it has a value. -/
theorem assign_bindsOnly {x : Symbol} (v : Value) (hx : targets x) :
    Run.Respects (Machine.BindsOnly f targets) (do
      if ← Run.isRoot f then Run.emit (.setGlobal x v)
      Run.define f x v
      return v) := by
  have hbind : Run.Respects (Machine.BindsOnly f targets) (do Run.define f x v; return v) :=
    (Run.define_bindsOnly v hx).bind fun _ => Run.respects_pure v
  refine (Run.respects_isRoot f).bind fun root => ?_
  split
  · exact (Run.emit_bindsOnly _).bind fun _ => hbind
  · exact hbind

theorem set_bindsOnly (htarget : ∀ x, args.first = .ok (.symbol x) → targets x)
    (hev : ∀ a ∈ args.elements, Run.Respects (Machine.BindsOnly f targets) (ev a f)) :
    Run.Respects (Machine.BindsOnly f targets) (ev.set f args) := by
  refine Run.respects_ofExcept_bind fun v hv => respects_target_bind fun x hx => ?_
  subst v
  refine Run.respects_ofExcept_bind fun d hd => Run.respects_ofExcept_bind fun a ha => ?_
  refine (hev a (Value.mem_elements_of_rest hd (Value.mem_elements_of_first ha))).bind fun v => ?_
  exact assign_bindsOnly v (htarget x hv)

theorem defun_bindsOnly (htarget : ∀ x, args.first = .ok (.symbol x) → targets x) :
    Run.Respects (Machine.BindsOnly f targets) (defun f args) := by
  refine Run.respects_ofExcept_bind fun v hv => respects_target_bind fun x hx => ?_
  subst v
  refine (Run.respects_ofExcept _).bind fun d => (Run.respects_ofExcept _).bind fun params => ?_
  refine (Run.respects_ofExcept _).bind fun d' => (Run.respects_ofExcept _).bind fun body => ?_
  refine (Run.respects_isRoot f).bind fun root => ?_
  have hbind : Run.Respects (Machine.BindsOnly f targets) (do
      Run.define f x (← Run.fresh (Value.function params body f))
      return Value.symbol x) := by
    refine (Run.fresh_bindsOnly _).bind fun function => ?_
    exact (Run.define_bindsOnly function (htarget x hv)).bind fun _ => Run.respects_pure _
  split
  · exact (Run.emit_bindsOnly _).bind fun _ => hbind
  · exact hbind

end Forms

/-- A call of a special form binds what its list assigns. -/
theorem special_bindsOnly (hev : ev.BindsLocally) (f : FrameId) (i : Serial) (args : Value)
    (form : SpecialForm) :
    Run.Respects (Machine.BindsOnly f
      (Value.pair i (.symbol (Builtin.symbol (.special form))) args).Assigns)
      (ev.special f args form) := by
  generalize hcall : Value.pair i (.symbol (Builtin.symbol (.special form))) args = call
  have hargs : ∀ a ∈ args.elements, a ∈ call.elements := by
    intro a ha
    simp [← hcall, Value.elements, ha]
  have hoperand : ∀ a ∈ args.elements,
      Run.Respects (Machine.BindsOnly f call.Assigns) (ev a f) := by
    intro a ha
    exact (hev a f).bindsOnly_mono fun x hx => hx.of_element (hargs a ha)
  have htarget : form = .set ∨ form = .defun →
      ∀ x, args.first = .ok (.symbol x) → call.Assigns x := by
    intro hform x hx
    cases args with
    | pair j first rest =>
        cases hx
        exact ⟨form, i, j, rest, hform, hcall ▸ .self⟩
    | number n => cases hx
    | symbol s => cases hx
    | closure j params body frame => cases hx
  cases form with
  | quote => exact Run.respects_ofExcept _
  | set => exact set_bindsOnly (htarget (.inl rfl)) hoperand
  | defun => exact defun_bindsOnly (htarget (.inr rfl))
  | cond =>
      refine cond_respects fun clause hc a ha => ?_
      exact (hev a f).bindsOnly_mono fun x hx => (hx.of_element ha).of_element (hargs clause hc)
  | print => exact print_respects Run.write_bindsOnly hoperand

/-- Evaluation one level deeper that binds locally gives evaluation that does. -/
theorem step_bindsLocally (hev : ev.BindsLocally) : ev.step.BindsLocally := by
  intro e f
  cases e with
  | number n => exact Run.respects_pure _
  | closure i params body frame => exact Run.respects_pure _
  | symbol s =>
      simp only [step]
      split
      · exact Run.respects_pure _
      · exact Run.respects_lookup f s
  | pair i head args =>
      refine Run.Respects.inContext ?_ _
      rw [call]
      split
      · rename_i form hform
        rw [eq_symbol_of_specialForm? hform]
        exact special_bindsOnly hev f i args form
      · have helement : ∀ a ∈ (Value.pair i head args).elements,
            Run.Respects (Machine.BindsOnly f (Value.pair i head args).Assigns) (ev a f) :=
          fun a ha => (hev a f).bindsOnly_mono fun x hx => hx.of_element ha
        refine (helement head (by simp [Value.elements])).bind fun function => ?_
        refine (operands_respects fun a ha => helement a ?_).bind fun vs => ?_
        · simp [Value.elements, ha]
        · exact apply_bindsOnly hev f _ function vs

end Evaluator

theorem eval_bindsLocally (exhausted : Stop) (levels : Nat) :
    (eval exhausted levels).BindsLocally := by
  induction levels with
  | zero => exact fun e f m => Heap.BindsOnly.refl m.heap
  | succ n ih => exact Evaluator.step_bindsLocally ih

/-! ## After an inner evaluation

Once an evaluation inside another has ended, what is left of the outer one binds names in the
frame of the outer one only. -/

namespace Evaluator

variable {ev : Evaluator} {f : FrameId} {args a : Value} {m m₁ : Machine}

theorem BindsLocally.respects (hev : ev.BindsLocally) (a : Value) (f : FrameId) :
    Run.Respects (Machine.BindsOnly f fun _ => True) (ev a f) :=
  (hev a f).bindsOnly_mono fun _ _ => trivial

theorem BindsLocally.operands_respects (hev : ev.BindsLocally) (f : FrameId) (args : Value) :
    Run.Respects (Machine.BindsOnly f fun _ => True) (ev.operands f args) :=
  Evaluator.operands_respects fun a _ => hev.respects a f

theorem EntersOperand.bindsOnly_rest (hev : ev.BindsLocally)
    (h : ev.EntersOperand f args m a m₁) :
    Machine.BindsOnly f (fun _ => True) ((ev a f).after m₁) ((ev.operands f args).after m) := by
  induction h with
  | here =>
      refine Run.after_bind_respects (fun v => ?_) _ _
      exact (hev.operands_respects f _).bind fun vs => Run.respects_pure _
  | later hfirst _ ih =>
      rw [operands, Run.after_bind_of_ok hfirst]
      exact trans_of _ ih (Run.after_bind_respects (fun vs => Run.respects_pure _) _ _)

theorem EntersClause.bindsOnly_rest (hev : ev.BindsLocally)
    (h : ev.EntersClause f args m a m₁) :
    Machine.BindsOnly f (fun _ => True) ((ev a f).after m₁) ((ev.cond f args).after m) := by
  induction h with
  | test ht =>
      rw [cond, ht, Run.ofExcept_ok_bind]
      refine Run.after_bind_respects (fun v => ?_) _ _
      split
      · refine (Run.respects_ofExcept _).bind fun d => (Run.respects_ofExcept _).bind fun a => ?_
        exact hev.respects a f
      · exact cond_respects fun c _ a _ => hev.respects a f
  | chosen ht htest hv hd ha =>
      rw [cond, ht, Run.ofExcept_ok_bind, Run.after_bind_of_ok htest, if_pos hv, hd,
        Run.ofExcept_ok_bind, ha, Run.ofExcept_ok_bind]
      exact refl_of _ _
  | later ht htest hv _ ih =>
      rw [cond, ht, Run.ofExcept_ok_bind, Run.after_bind_of_ok htest, if_neg (by simp [hv])]
      exact ih

theorem Enters.bindsOnly_rest (hev : ev.BindsLocally) {t t₁ : Task} (h : ev.Enters t t₁) :
    Machine.BindsOnly t.frame (fun _ => True) ((ev t₁.expr t₁.frame).after t₁.machine)
      ((ev.step t.expr t.frame).after t.machine) := by
  cases h with
  | head hform =>
      rename_i i head args f m
      simp only [step, Run.after_inContext, call, hform]
      refine Run.after_bind_respects (fun function => ?_) _ _
      exact (hev.operands_respects f args).bind fun vs => apply_bindsOnly hev f _ function vs
  | operand hform hhead henter =>
      rename_i i head args f m function m₁ a m₂
      simp only [step, Run.after_inContext, call, hform, Run.after_bind_of_ok hhead]
      refine trans_of _ (henter.bindsOnly_rest hev) ?_
      exact Run.after_bind_respects (fun vs => apply_bindsOnly hev f _ function vs) _ _
  | body hform hhead hargs hopen =>
      simp only [step, Run.after_inContext, call, hform, Run.after_bind_of_ok hhead,
        Run.after_bind_of_ok hargs, apply_closure, Run.after_bind_of_ok hopen]
      exact refl_of _ _
  | set hform hx hd ha =>
      simp only [step, Run.after_inContext, call, hform, special, Evaluator.set, hx,
        Run.ofExcept_ok_bind, target, pure_bind, hd, ha]
      exact Run.after_bind_respects (fun v => assign_bindsOnly v trivial) _ _
  | clause hform henter =>
      simp only [step, Run.after_inContext, call, hform, special]
      exact henter.bindsOnly_rest hev
  | print hform ha =>
      simp only [step, Run.after_inContext, call, hform, special, Evaluator.print, ha,
        Run.ofExcept_ok_bind]
      refine Run.after_bind_respects (fun v => ?_) _ _
      exact (Run.write_bindsOnly _).bind fun _ => Run.respects_pure v

/-! Before an inner evaluation the outer one binds in its own frame as well. -/

theorem Enters.bindsOnly_before (hev : ev.BindsLocally) {t t₁ : Task} (h : ev.Enters t t₁) :
    Machine.BindsOnly t.frame (fun _ => True) t.machine t₁.machine := by
  cases h with
  | head => exact refl_of _ _
  | set => exact refl_of _ _
  | print => exact refl_of _ _
  | clause hform henter => exact henter.respects fun a => hev.respects a _
  | operand hform hhead henter =>
      exact trans_of _ ((hev.respects _ _).of_ok hhead) (henter.respects fun a => hev.respects a _)
  | body hform hhead hargs hopen =>
      obtain ⟨-, new, hheap⟩ := openFrame_ok hopen
      refine trans_of _ ((hev.respects _ _).of_ok hhead)
        (trans_of _ ((hev.operands_respects _ _).of_ok hargs) ?_)
      rw [Machine.BindsOnly, hheap]
      exact Heap.BindsOnly.push new

/-- An inner evaluation works in a frame of the heap if the outer one does. -/
theorem Enters.frame_lt (hev : ev.BindsLocally) {t t₁ : Task} (h : ev.Enters t t₁)
    (ht : t.frame < t.machine.heap.frames.size) :
    t₁.frame < t₁.machine.heap.frames.size := by
  have hsize := (h.bindsOnly_before hev).size_le
  cases h with
  | body hform hhead hargs hopen =>
      obtain ⟨rfl, new, hheap⟩ := openFrame_ok hopen
      show _ < Array.size _
      rw [hheap, Heap.size_push]
      exact Nat.lt_succ_self _
  | head => exact ht
  | set => exact ht
  | print => exact ht
  | clause => exact Nat.lt_of_lt_of_le ht hsize
  | operand => exact Nat.lt_of_lt_of_le ht hsize

end Evaluator

section Reached

variable {exhausted : Stop} {n k : Nat} {t t₁ : Task}

theorem Reaches.size_le (h : Reaches exhausted n t k t₁) :
    t.machine.heap.frames.size ≤ t₁.machine.heap.frames.size := by
  induction h with
  | refl => exact Nat.le_refl _
  | enter henter _ ih =>
      exact Nat.le_trans (henter.bindsOnly_before (eval_bindsLocally _ _)).size_le ih

theorem Reaches.size_after_le (h : Reaches exhausted n t k t₁) :
    ((eval exhausted k t₁.expr t₁.frame).after t₁.machine).heap.frames.size ≤
      ((eval exhausted n t.expr t.frame).after t.machine).heap.frames.size := by
  induction h with
  | refl => exact Nat.le_refl _
  | enter henter _ ih =>
      exact Nat.le_trans ih (henter.bindsOnly_rest (eval_bindsLocally _ _)).size_le

/-- The frames made during an inner evaluation stay as it left them until the outer one ends. -/
theorem Reaches.frame?_after (h : Reaches exhausted n t k t₁)
    (ht : t.frame < t.machine.heap.frames.size) (g : FrameId)
    (hmade : t₁.machine.heap.frames.size ≤ g)
    (hg : g < ((eval exhausted k t₁.expr t₁.frame).after t₁.machine).heap.frames.size) :
    ((eval exhausted n t.expr t.frame).after t.machine).heap.frame? g =
      ((eval exhausted k t₁.expr t₁.frame).after t₁.machine).heap.frame? g := by
  induction h with
  | refl => rfl
  | @enter n k t t' t₁ henter hreach ih =>
      -- the frame of the outer evaluation is older than `g`
      have hbefore := (henter.bindsOnly_before (eval_bindsLocally exhausted n)).size_le
      have hold : t.machine.heap.frames.size ≤ g :=
        Nat.le_trans hbefore (Nat.le_trans hreach.size_le hmade)
      have hne : g ≠ t.frame := Nat.ne_of_gt (Nat.lt_of_lt_of_le ht hold)
      have hrest := (henter.bindsOnly_rest (eval_bindsLocally exhausted n)).frame_eq g
        (Nat.lt_of_lt_of_le hg hreach.size_after_le) hne
      exact hrest.trans (ih (henter.frame_lt (eval_bindsLocally exhausted n) ht) hmade hg)

end Reached

/-! ## Evaluation as a whole -/

/-- What happens below the last level of evaluation. -/
def Limits.exhausted (limits : Limits) : Stop :=
  match limits.eval with
  | some m => .error (.tooDeep m)
  | none => .outOfFuel

/-- How many levels evaluation has; without a limit `fuel` says so. -/
def Limits.levels (limits : Limits) (fuel : Nat) : Nat :=
  limits.eval.getD fuel

theorem evaluate_eq_eval (limits : Limits) (fuel : Nat) :
    evaluate limits fuel = eval limits.exhausted (limits.levels fuel) := by
  unfold evaluate Limits.exhausted Limits.levels
  cases limits.eval <;> rfl

/-- The second heap comes from the first by evaluations, of any expressions under any limits, in
frames other than `g`. -/
inductive Heap.EvolvesOutside (g : FrameId) : Heap → Heap → Prop
  | refl (h : Heap) : EvolvesOutside g h h
  | evaluate {h : Heap} {m : Machine} (limits : Limits) (fuel : Nat) (e : Value) {f : FrameId} :
      f ≠ g → EvolvesOutside g h m.heap →
      EvolvesOutside g h ((evaluate limits fuel e f).after m).heap

theorem Heap.EvolvesOutside.frame?_eq {g : FrameId} {h h₁ : Heap} (hev : EvolvesOutside g h h₁)
    (hg : g < h.frames.size) : g < h₁.frames.size ∧ h₁.frame? g = h.frame? g := by
  induction hev with
  | refl => exact ⟨hg, rfl⟩
  | @evaluate m limits fuel e f hne _ ih =>
      have hbinds := eval_bindsLocally limits.exhausted (limits.levels fuel) e f m
      rw [← evaluate_eq_eval] at hbinds
      refine ⟨Nat.lt_of_lt_of_le ih.1 hbinds.size_le, ?_⟩
      rw [hbinds.frame_eq g ih.1 hne.symm, ih.2]

/-- Evaluation changes no frame but its own, and there it only binds names that the expression
assigns. So a call changes no frame that is there before it, and the frames made by any
evaluation inside stay as that evaluation left them, until the end and ever after. -/
theorem evaluate_binds_only_in_frame (limits : Limits) (fuel : Nat) (e : Value) (env : FrameId)
    (m : Machine) (henv : env < m.heap.frames.size) :
    let m' := (evaluate limits fuel e env).after m
    (∀ g < m.heap.frames.size, g ≠ env → m'.heap.frame? g = m.heap.frame? g) ∧
    m'.heap.parent? env = m.heap.parent? env ∧
    (∀ x, (m.heap.local? env x).isSome → (m'.heap.local? env x).isSome) ∧
    (∀ x, m'.heap.local? env x ≠ m.heap.local? env x → e.Assigns x) ∧
    (∀ exhausted levels i params body frame args, ∀ g < m.heap.frames.size,
      (((eval exhausted levels).apply (.closure i params body frame) args).after m).heap.frame? g =
        m.heap.frame? g) ∧
    (∀ levels t, Reaches limits.exhausted (limits.levels fuel) ⟨e, env, m⟩ levels t →
      let m₁ := (eval limits.exhausted levels t.expr t.frame).after t.machine
      ∀ g, t.machine.heap.frames.size ≤ g → g < m₁.heap.frames.size →
        ∀ h, m'.heap.EvolvesOutside g h → h.frame? g = m₁.heap.frame? g) := by
  intro m'
  have hbinds : m.heap.BindsOnly env e.Assigns m'.heap := by
    have h := eval_bindsLocally limits.exhausted (limits.levels fuel) e env m
    rwa [← evaluate_eq_eval] at h
  refine ⟨hbinds.frame_eq, hbinds.parent_eq henv, hbinds.bound, ?_, ?_, ?_⟩
  · intro x hx
    exact Classical.byContradiction fun hassigns => hx (hbinds.local_eq henv x hassigns)
  · intro exhausted levels i params body frame args
    exact (Evaluator.apply_frame? (eval_bindsLocally exhausted levels) _ args m).2
  · intro levels t hreach m₁ g hmade hg h hlater
    have hafter := hreach.frame?_after henv g hmade hg
    have hsize := hreach.size_after_le
    rw [← evaluate_eq_eval] at hafter hsize
    exact (hlater.frame?_eq (Nat.lt_of_lt_of_le hg hsize)).2.trans hafter

/-- Two frames, and a call of a function whose body binds a name. -/
theorem evaluate_binds_only_in_frame_call :
    let m : Machine := ⟨⟨#[.empty none, .empty (some 0)]⟩, 3, .empty none, #[]⟩
    let body : Value :=
      .pair 0 (.symbol (Builtin.symbol (.special .set))) (.pair 1 .truth (.pair 2 .nil .nil))
    let call : Value := .pair 4 (.closure 3 .nil body 1) .nil
    1 < m.heap.frames.size ∧
    ((evaluate .unlimited 3 call 1).after m).heap.frame? 0 = m.heap.frame? 0 ∧
    ((evaluate .unlimited 3 call 1).after m).heap.frames.size = 3 ∧
    ∀ h, ((evaluate .unlimited 3 call 1).after m).heap.EvolvesOutside 2 h →
      h.frame? 2 = ((evaluate .unlimited 3 call 1).after m).heap.frame? 2 := by
  intro m body call
  have hspec := evaluate_binds_only_in_frame .unlimited 3 call 1 m (by decide)
  have hsize : ((evaluate .unlimited 3 call 1).after m).heap.frames.size = 3 := by
    decide +kernel
  have hmade : 2 < ((evaluate .unlimited 3 call 1).after m).heap.frames.size := by
    rw [hsize]
    decide
  refine ⟨by decide, hspec.1 0 (by decide) (by decide), hsize, ?_⟩
  exact hspec.2.2.2.2.2 3 ⟨call, 1, m⟩ (.refl 3 _) 2 (by decide) hmade

end Lisp
