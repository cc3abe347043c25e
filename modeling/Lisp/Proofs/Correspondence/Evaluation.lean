import Lisp.Eval
import Lisp.Proofs.Correspondence.Machine

/-! # Evaluation on machines that correspond

Evaluation never looks at the number of an object or the place of a frame, only at whether two are
the same. So from machines that correspond it goes the same way and comes to results that
correspond: `eval_parametric`. -/

namespace Lisp

variable {p : Pairing}

/-- A fault that ends with a printed value sounds the same of values that correspond. -/
theorem Value.Corresponds.alike {v v' : Value} (h : Corresponds p v v')
    (fault : Value → TypeFault) {text : String}
    (hmessage : ∀ w, (fault w).message = text ++ w.print) :
    (Error.type (fault v) none).Alike (.type (fault v') none) := by
  refine .type ?_ rfl
  rw [hmessage, hmessage, h.print_eq]

/-! ## Parameters -/

/-- The same names are bound, in the same order, to values that correspond. -/
abbrev Bindings.Correspond (p : Pairing) : Bindings → Bindings → Prop :=
  List.Forall₂ fun b b' => b.1 = b'.1 ∧ Value.Corresponds p b.2 b'.2

structure ParameterMatch.Corresponds (p : Pairing) (pm pm' : ParameterMatch) : Prop where
  each : Bindings.Correspond p pm.each pm'.each
  rest : Option.Rel (fun r r' => r.1 = r'.1 ∧ List.Forall₂ (Value.Corresponds p) r.2 r'.2)
    pm.rest pm'.rest

theorem ParameterMatch.ofParams_agree {args args' : List Value}
    (hargs : List.Forall₂ (Value.Corresponds p) args args') {params params' : Value}
    (hparams : Value.Corresponds p params params') :
    Agree (ParameterMatch.Corresponds p) (ofParams params args) (ofParams params' args') := by
  induction hargs generalizing params params' with
  | nil =>
      rw [ofParams, ofParams]
      exact .ok ⟨.nil, .none⟩
  | cons hv hvs ih =>
      cases hparams with
      | number n => exact .error (.refl _)
      | symbol x =>
          refine .ok ⟨.nil, ?_⟩
          split
          · exact .none
          · exact .some ⟨rfl, .cons hv hvs⟩
      | closure ho hf hp hb =>
          exact .error ((Value.Corresponds.closure ho hf hp hb).alike .parameterTail fun _ => rfl)
      | pair _ hfirst hrest =>
          have hfault := hfirst.alike .parameter fun _ => rfl
          cases hfirst with
          | symbol x => exact (ih hrest).map fun pm pm' hpm => ⟨.cons ⟨rfl, hv⟩ hpm.each, hpm.rest⟩
          | number n => exact .error hfault
          | pair => exact .error hfault
          | closure => exact .error hfault

theorem ParameterMatch.Corresponds.bindings {pm pm' : ParameterMatch} (h : pm.Corresponds p pm') :
    Run.Corresponds p Bindings.Correspond (Run.fresh pm.bindings) (Run.fresh pm'.bindings) := by
  have hrest := h.rest
  unfold ParameterMatch.bindings
  generalize pm.rest = r, pm'.rest = r' at hrest ⊢
  cases hrest with
  | none => exact Run.corresponds_pure h.each
  | @some r r' hr =>
      obtain ⟨x, vs⟩ := r
      obtain ⟨x', vs'⟩ := r'
      obtain ⟨hx, hvs⟩ := hr
      cases hx
      show Run.Corresponds p _ (Run.fresh (Value.ofList vs .nil >>= _))
        (Run.fresh (Value.ofList vs' .nil >>= _))
      rw [Run.fresh_bind, Run.fresh_bind]
      refine (Run.corresponds_ofList hvs (.symbol _)).bind fun q hpq v v' hv => ?_
      have heach : Bindings.Correspond q pm.each pm'.each :=
        h.each.imp fun b b' hb => ⟨hb.1, hb.2.mono hpq⟩
      exact Run.corresponds_pure (List.rel_append heach (.cons ⟨rfl, hv⟩ .nil))

theorem Frame.Corresponds.define {frame frame' : Frame} (h : frame.Corresponds p frame')
    (x : Symbol) {v v' : Value} (hv : Value.Corresponds p v v') :
    (frame.define x v).Corresponds p (frame'.define x v') := by
  refine ⟨h.parent, fun y => ?_⟩
  rw [lookup?_define, lookup?_define]
  split
  · exact .some hv
  · exact h.binding y

theorem Frame.corresponds_empty {parent parent' : Option FrameId}
    (h : Option.Rel p.frame parent parent') : (empty parent).Corresponds p (empty parent') :=
  ⟨h, fun _ => .none⟩

theorem Frame.corresponds_ofBindings {f f' : FrameId} (hf : p.frame f f') {bs bs' : Bindings}
    (h : Bindings.Correspond p bs bs') : (ofBindings f bs).Corresponds p (ofBindings f' bs') := by
  unfold ofBindings
  have hstart : (empty (some f)).Corresponds p (empty (some f')) := corresponds_empty (.some hf)
  generalize empty (some f) = frame, empty (some f') = frame' at hstart ⊢
  induction h generalizing frame frame' with
  | nil => exact hstart
  | @cons b b' _ _ hb _ ih =>
      obtain ⟨x, v⟩ := b
      obtain ⟨x', v'⟩ := b'
      obtain ⟨hx, hv⟩ := hb
      cases hx
      exact ih _ _ (hstart.define x hv)

theorem Frame.ofParams_agree {f f' : FrameId} (hf : p.frame f f') {params params' : Value}
    (hparams : Value.Corresponds p params params') {args args' : List Value}
    (hargs : List.Forall₂ (Value.Corresponds p) args args') :
    Agree (fun make make' => Run.Corresponds p Frame.Corresponds (Run.fresh make) (Run.fresh make'))
      (ofParams f params args) (ofParams f' params' args') := by
  refine (ParameterMatch.ofParams_agree hargs hparams).map fun pm pm' hpm => ?_
  rw [Run.fresh_bind, Run.fresh_bind]
  exact hpm.bindings.bind fun q hpq bs bs' hbs =>
    Run.corresponds_pure (corresponds_ofBindings (hpq.2 _ _ hf) hbs)

theorem Run.corresponds_extend {f f' : FrameId} (hf : p.frame f f') {params params' : Value}
    (hparams : Value.Corresponds p params params') {args args' : List Value}
    (hargs : List.Forall₂ (Value.Corresponds p) args args') :
    Corresponds p Pairing.frame (extend f params args) (extend f' params' args') := by
  have hframe := Frame.ofParams_agree hf hparams hargs
  refine corresponds_ofExcept_bind hframe fun make make' hmake => ?_
  exact hmake.bind fun q _ frame frame' hframe => corresponds_push hframe

/-! ## Primitives -/

theorem forall₂_one {α β : Type} {R : α → β → Prop} {as : List α} {bs : List β}
    (h : List.Forall₂ R as bs) (hlength : as.length = 1) : ∃ a b, as = [a] ∧ bs = [b] ∧ R a b := by
  match h, hlength with
  | .cons hab .nil, _ => exact ⟨_, _, rfl, rfl, hab⟩

theorem forall₂_two {α β : Type} {R : α → β → Prop} {as : List α} {bs : List β}
    (h : List.Forall₂ R as bs) (hlength : as.length = 2) :
    ∃ a a' b b', as = [a, a'] ∧ bs = [b, b'] ∧ R a b ∧ R a' b' := by
  match h, hlength with
  | .cons hab (.cons hab' .nil), _ => exact ⟨_, _, _, _, rfl, rfl, hab, hab'⟩

namespace Primitive

theorem number_agree (op : Primitive) {v v' : Value} (h : Value.Corresponds p v v') :
    Agree Eq (op.number v) (op.number v') := by
  have hfault := h.alike (.numeric op) fun _ => rfl
  cases h with
  | number n => exact .ok rfl
  | symbol s => exact .error hfault
  | pair => exact .error hfault
  | closure => exact .error hfault

theorem numbers_agree (op : Primitive) {args args' : List Value}
    (h : List.Forall₂ (Value.Corresponds p) args args') :
    Agree Eq (op.numbers args) (op.numbers args') := by
  have hnumbers := Agree.mapM (fun v v' hv => op.number_agree hv) h
  rwa [List.forall₂_eq_eq_eq] at hnumbers

theorem divideBy_agree (n : Int64) {v v' : Value} (h : Value.Corresponds p v v') :
    Agree Eq (divideBy n v) (divideBy n v') := by
  refine (div.number_agree h).bind ?_
  rintro d _ rfl
  split
  · exact .error (.refl _)
  · exact .ok rfl

theorem quotient_agree {args args' : List Value}
    (h : List.Forall₂ (Value.Corresponds p) args args') :
    Agree Eq (quotient args) (quotient args') := by
  cases h with
  | nil => exact .ok rfl
  | cons hv hvs =>
      cases hvs with
      | nil => exact divideBy_agree 1 hv
      | cons hw hws =>
          refine (div.number_agree hv).bind ?_
          rintro n _ rfl
          exact Agree.foldlM (A := Value.Corresponds p) (fun n _ _ => divideBy_agree n)
            (.cons hw hws) n

theorem compare_agree (op : Primitive) (holds : Int64 → Int64 → Bool) {v v' w w' : Value}
    (hv : Value.Corresponds p v v') (hw : Value.Corresponds p w w') :
    Agree (Value.Corresponds p) (op.compare holds v w) (op.compare holds v' w') := by
  refine (op.number_agree hv).bind ?_
  rintro m _ rfl
  refine (op.number_agree hw).bind ?_
  rintro n _ rfl
  exact .ok (.ofBool _)

/-- Making the two answers leads to values that correspond. -/
abbrev Answers (p : Pairing) (make make' : Fresh Value) : Prop :=
  Run.Corresponds p Value.Corresponds (Run.fresh make) (Run.fresh make')

theorem answers_pure {v v' : Value} (h : Value.Corresponds p v v') : Answers p (pure v) (pure v') :=
  Run.corresponds_pure h

theorem answers_number {α : Type} (g : α → Int64) (a b : α) (h : a = b) :
    Answers p (pure (.number (g a))) (pure (.number (g b))) := by
  subst h
  exact answers_pure (.number _)

theorem answer_agree (op : Primitive) {args args' : List Value}
    (h : List.Forall₂ (Value.Corresponds p) args args')
    (hcount : op.arity.accepts args.length = true) :
    Agree (Answers p) (op.answer args) (op.answer args') := by
  have hone (harity : op.arity = .exactly 1) :
      ∃ v v', args = [v] ∧ args' = [v'] ∧ Value.Corresponds p v v' :=
    forall₂_one h (by simpa [harity, Arity.accepts] using hcount)
  have htwo (harity : op.arity = .exactly 2) :
      ∃ v w v' w', args = [v, w] ∧ args' = [v', w'] ∧
        Value.Corresponds p v v' ∧ Value.Corresponds p w w' :=
    forall₂_two h (by simpa [harity, Arity.accepts] using hcount)
  cases op with
  | list => exact .ok (Run.corresponds_ofList h (.symbol _))
  | add => exact (numbers_agree add h).map (answers_number _)
  | sub => exact (numbers_agree sub h).map (answers_number _)
  | mul => exact (numbers_agree mul h).map (answers_number _)
  | div => exact (quotient_agree h).map (answers_number _)
  | car =>
      obtain ⟨v, v', rfl, rfl, hv⟩ := hone rfl
      exact hv.first.map fun _ _ => answers_pure
  | cdr =>
      obtain ⟨v, v', rfl, rfl, hv⟩ := hone rfl
      exact hv.rest.map fun _ _ => answers_pure
  | isAtom =>
      obtain ⟨v, v', rfl, rfl, hv⟩ := hone rfl
      exact .ok (answers_pure (hv.isAtom_eq ▸ .ofBool _))
  | cons =>
      obtain ⟨v, w, v', w', rfl, rfl, hv, hw⟩ := htwo rfl
      exact .ok (Run.corresponds_cons hv hw)
  | identical =>
      obtain ⟨v, w, v', w', rfl, rfl, hv, hw⟩ := htwo rfl
      exact .ok (answers_pure (hv.identical_eq hw ▸ .ofBool _))
  | equal =>
      obtain ⟨v, w, v', w', rfl, rfl, hv, hw⟩ := htwo rfl
      exact .ok (answers_pure (hv.equal_eq hw ▸ .ofBool _))
  | less =>
      obtain ⟨v, w, v', w', rfl, rfl, hv, hw⟩ := htwo rfl
      exact (compare_agree less _ hv hw).map fun _ _ => answers_pure
  | greater =>
      obtain ⟨v, w, v', w', rfl, rfl, hv, hw⟩ := htwo rfl
      exact (compare_agree greater _ hv hw).map fun _ _ => answers_pure

theorem apply_agree (op : Primitive) {args args' : List Value}
    (h : List.Forall₂ (Value.Corresponds p) args args') :
    Agree (Answers p) (op.apply args) (op.apply args') := by
  have hlength := h.length_eq
  unfold apply Arity.check
  rw [← hlength]
  split
  · rename_i hcount
    exact op.answer_agree h hcount
  · exact .error (.refl _)

end Primitive

/-! ## One step -/

namespace Evaluator

/-- Expressions that correspond have values that do. -/
def Parametric (ev : Evaluator) : Prop :=
  ∀ {p : Pairing} {e e' : Value} {f f' : FrameId}, Value.Corresponds p e e' → p.frame f f' →
    Run.Corresponds p Value.Corresponds (ev e f) (ev e' f')

variable {ev : Evaluator} {f f' : FrameId} {args args' : Value}

theorem Parametric.operands (hev : ev.Parametric) (hargs : Value.Corresponds p args args')
    (hf : p.frame f f') :
    Run.Corresponds p (fun q => List.Forall₂ (Value.Corresponds q)) (ev.operands f args)
      (ev.operands f' args') := by
  induction args generalizing p args' with
  | number n =>
      cases hargs
      exact Run.corresponds_fail (.refl _)
  | symbol s =>
      cases hargs
      unfold Evaluator.operands
      split
      · exact Run.corresponds_pure .nil
      · exact Run.corresponds_fail (.refl _)
  | closure i params body frame =>
      cases hargs
      exact Run.corresponds_fail (.notAList rfl)
  | pair i first rest _ ih =>
      cases hargs with
      | pair _ hfirst hrest =>
          refine (hev hfirst hf).bind fun q hpq v v' hv => ?_
          refine (ih (hrest.mono hpq) (hpq.2 _ _ hf)).bind fun q' hqq' vs vs' hvs => ?_
          exact Run.corresponds_pure (.cons (hv.mono hqq') hvs)

theorem Parametric.apply (hev : ev.Parametric) {function function' : Value}
    (hfunction : Value.Corresponds p function function') {vs vs' : List Value}
    (hvs : List.Forall₂ (Value.Corresponds p) vs vs') :
    Run.Corresponds p Value.Corresponds (ev.apply function vs) (ev.apply function' vs') := by
  have hfault := hfunction.alike .callable fun _ => rfl
  cases hfunction with
  | number n => exact Run.corresponds_fail hfault
  | pair => exact Run.corresponds_fail hfault
  | symbol s =>
      simp only [Evaluator.apply]
      split
      · rename_i op _
        exact Run.corresponds_ofExcept_bind (op.apply_agree hvs) fun make make' hmake => hmake
      · exact Run.corresponds_fail (.refl _)
  | closure _ hframe hparams hbody =>
      refine (Run.corresponds_emit _ _).bind fun q hpq _ _ _ => ?_
      have hargs := hvs.imp fun v v' (hv : Value.Corresponds p v v') => hv.mono hpq
      refine (Run.corresponds_extend (hpq.2 _ _ hframe) (hparams.mono hpq) hargs).bind ?_
      intro q' hqq' f f' hf
      exact hev (hbody.mono (le_trans hpq hqq')) hf

theorem corresponds_target (form : SpecialForm) {v v' : Value} (hv : Value.Corresponds p v v') :
    Run.Corresponds p Run.Same (target form v) (target form v') := by
  have hfault := hv.alike (.target form) fun _ => rfl
  cases hv with
  | symbol x => exact Run.corresponds_pure rfl
  | number n => exact Run.corresponds_fail hfault
  | pair => exact Run.corresponds_fail hfault
  | closure => exact Run.corresponds_fail hfault

/-- Forms that bind report it at the top level. -/
theorem corresponds_report {f f' : FrameId} (hf : p.frame f f') (e e' : Event) {c d : Run Value}
    (hcd : ∀ q, p ≤ q → Run.Corresponds q Value.Corresponds c d) :
    Run.Corresponds p Value.Corresponds
      (do
        if ← Run.isRoot f then Run.emit e
        c)
      (do
        if ← Run.isRoot f' then Run.emit e'
        d) := by
  refine (Run.corresponds_isRoot hf).bind ?_
  rintro q hpq root _ rfl
  cases root with
  | true => exact (Run.corresponds_emit e e').bind fun q' hqq' _ _ _ => hcd q' (le_trans hpq hqq')
  | false => exact hcd q hpq

theorem Parametric.set (hev : ev.Parametric) (hargs : Value.Corresponds p args args')
    (hf : p.frame f f') :
    Run.Corresponds p Value.Corresponds (ev.set f args) (ev.set f' args') := by
  refine Run.corresponds_ofExcept_bind hargs.first fun name name' hname => ?_
  refine (corresponds_target .set hname).bind ?_
  rintro q hpq x _ rfl
  refine Run.corresponds_ofExcept_bind (hargs.mono hpq).rest fun d d' hd => ?_
  refine Run.corresponds_ofExcept_bind hd.first fun a a' ha => ?_
  refine (hev ha (hpq.2 _ _ hf)).bind fun q' hqq' v v' hv => ?_
  have hf' : q'.frame f f' := hqq'.2 _ _ (hpq.2 _ _ hf)
  refine corresponds_report hf' _ _ fun r hr => ?_
  refine (Run.corresponds_define (hr.2 _ _ hf') x (hv.mono hr)).bind fun r' hr' _ _ _ => ?_
  exact Run.corresponds_pure (hv.mono (le_trans hr hr'))

theorem corresponds_defun (hargs : Value.Corresponds p args args') (hf : p.frame f f') :
    Run.Corresponds p Value.Corresponds (defun f args) (defun f' args') := by
  refine Run.corresponds_ofExcept_bind hargs.first fun name name' hname => ?_
  refine (corresponds_target .defun hname).bind ?_
  rintro q hpq x _ rfl
  refine Run.corresponds_ofExcept_bind (hargs.mono hpq).rest fun d d' hd => ?_
  refine Run.corresponds_ofExcept_bind hd.first fun params params' hparams => ?_
  refine Run.corresponds_ofExcept_bind hd.rest fun e e' he => ?_
  refine Run.corresponds_ofExcept_bind he.first fun body body' hbody => ?_
  refine corresponds_report (hpq.2 _ _ hf) _ _ fun r hr => ?_
  have hf' : r.frame f f' := hr.2 _ _ (hpq.2 _ _ hf)
  refine (Run.corresponds_function (hparams.mono hr) (hbody.mono hr) hf').bind ?_
  intro r' hr' function function' hfunction
  refine (Run.corresponds_define (hr'.2 _ _ hf') x hfunction).bind fun _ _ _ _ _ => ?_
  exact Run.corresponds_pure (.symbol x)

theorem Parametric.cond (hev : ev.Parametric) (hargs : Value.Corresponds p args args')
    (hf : p.frame f f') :
    Run.Corresponds p Value.Corresponds (ev.cond f args) (ev.cond f' args') := by
  induction args generalizing p args' with
  | number n =>
      cases hargs
      exact Run.corresponds_fail (.refl _)
  | symbol s =>
      cases hargs
      unfold Evaluator.cond
      split
      · exact Run.corresponds_pure (.symbol _)
      · exact Run.corresponds_fail (.refl _)
  | closure i params body frame =>
      cases hargs
      exact Run.corresponds_fail (.notAList rfl)
  | pair i clause rest _ ih =>
      cases hargs with
      | pair _ hclause hrest =>
          refine Run.corresponds_ofExcept_bind hclause.first fun t t' ht => ?_
          refine (hev ht hf).bind fun q hpq test test' htest => ?_
          have hf' : q.frame f f' := hpq.2 _ _ hf
          rw [htest.isTruthy_eq]
          split
          · refine Run.corresponds_ofExcept_bind (hclause.mono hpq).rest fun d d' hd => ?_
            exact Run.corresponds_ofExcept_bind hd.first fun a a' ha => hev ha hf'
          · exact ih (hrest.mono hpq) hf'

theorem Parametric.print (hev : ev.Parametric) (hargs : Value.Corresponds p args args')
    (hf : p.frame f f') :
    Run.Corresponds p Value.Corresponds (ev.print f args) (ev.print f' args') := by
  refine Run.corresponds_ofExcept_bind hargs.first fun a a' ha => ?_
  refine (hev ha hf).bind fun q hpq v v' hv => ?_
  rw [hv.print_eq]
  exact (Run.corresponds_write _).bind fun q' hqq' _ _ _ => Run.corresponds_pure (hv.mono hqq')

theorem specialForm?_eq {head head' : Value} (h : Value.Corresponds p head head') :
    specialForm? head = specialForm? head' := by
  cases h <;> rfl

theorem Parametric.call (hev : ev.Parametric) {head head' : Value}
    (hhead : Value.Corresponds p head head') (hargs : Value.Corresponds p args args')
    (hf : p.frame f f') :
    Run.Corresponds p Value.Corresponds (ev.call f head args) (ev.call f' head' args') := by
  unfold Evaluator.call
  rw [specialForm?_eq hhead]
  split
  · rename_i form _
    cases form with
    | quote => exact Run.corresponds_ofExcept hargs.first
    | set => exact hev.set hargs hf
    | defun => exact corresponds_defun hargs hf
    | cond => exact hev.cond hargs hf
    | print => exact hev.print hargs hf
  · refine (hev hhead hf).bind fun q hpq function function' hfunction => ?_
    refine (hev.operands (hargs.mono hpq) (hpq.2 _ _ hf)).bind fun q' hqq' vs vs' hvs => ?_
    exact hev.apply (hfunction.mono hqq') hvs

theorem Parametric.step (hev : ev.Parametric) : ev.step.Parametric := by
  intro p e e' f f' he hf
  cases he with
  | number n => exact Run.corresponds_pure (.number n)
  | symbol s =>
      simp only [Evaluator.step]
      split
      · exact Run.corresponds_pure (.symbol s)
      · exact Run.corresponds_lookup hf s
  | closure ho hframe hparams hbody =>
      exact Run.corresponds_pure (.closure ho hframe hparams hbody)
  | pair ho hhead hargs =>
      exact (hev.call hhead hargs hf).inContext (Value.Corresponds.pair ho hhead hargs).print_eq

end Evaluator

theorem eval_parametric (exhausted : Stop) (levels : Nat) : (eval exhausted levels).Parametric := by
  induction levels with
  | zero => exact fun _ _ => Run.corresponds_throw (.refl exhausted)
  | succ n ih => exact ih.step

theorem evaluate_parametric (limits : Limits) (fuel : Nat) : (evaluate limits fuel).Parametric := by
  unfold evaluate
  cases limits.eval with
  | some m => exact eval_parametric _ m
  | none => exact eval_parametric _ fuel

end Lisp
