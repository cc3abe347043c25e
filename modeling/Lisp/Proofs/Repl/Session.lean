import Lisp.Repl
import Lisp.Proofs.Evaluation.Output

/-! # Sessions

A session evaluates expressions in order on one machine: what they print, a line for each value
and a line for the error that ends the session all go to one sink. The dialogue evaluates
expressions in groups and empties the sink after each; what it shows is what the session writes,
up to the first error. -/

namespace Lisp

/-- The machine with a text behind what its sink has received. -/
def Machine.shows (m : Machine) (text : String) : Machine :=
  m.withSink (m.sink.write text).2

theorem Machine.shows_unlimited (m : Machine) (bytes : ByteArray) (text : String) :
    (m.withSink ⟨bytes, none⟩).shows text = m.withSink ⟨bytes ++ text.toUTF8, none⟩ := rfl

/-- Evaluates expressions in order up to the first error, and gives what ended it early. -/
def Interpreter.session (i : Interpreter) : List Datum → Machine → Option Stop × Machine
  | [], m => (none, m)
  | d :: ds, m =>
    match (i.evaluate d).run m with
    | .ok v m₁ => i.session ds (m₁.shows ("=> " ++ v.print ++ "\n"))
    | .error (.error e) m₁ => (some (.error e), m₁.shows ("Error: " ++ e.message ++ "\n"))
    | .error .outOfFuel m₁ => (some .outOfFuel, m₁)

section

variable {i : Interpreter} {d : Datum} {m m₁ : Machine}

theorem Interpreter.session_of_ok {v : Value} (h : (i.evaluate d).run m = .ok v m₁)
    (ds : List Datum) :
    i.session (d :: ds) m = i.session ds (m₁.shows ("=> " ++ v.print ++ "\n")) := by
  rw [session, h]

theorem Interpreter.session_of_error {e : Error} (h : (i.evaluate d).run m = .error (.error e) m₁)
    (ds : List Datum) :
    i.session (d :: ds) m =
      (some (.error e), m₁.shows ("Error: " ++ e.message ++ "\n")) := by
  rw [session, h]

theorem Interpreter.session_of_outOfFuel (h : (i.evaluate d).run m = .error .outOfFuel m₁)
    (ds : List Datum) : i.session (d :: ds) m = (some .outOfFuel, m₁) := by
  rw [session, h]

end

/-- A session goes on with more expressions if all before were evaluated. -/
theorem Interpreter.session_append (i : Interpreter) (ds ds' : List Datum) (m : Machine) :
    i.session (ds ++ ds') m =
      if (i.session ds m).1 = none then i.session ds' (i.session ds m).2 else i.session ds m := by
  induction ds generalizing m with
  | nil => rfl
  | cons d ds ih =>
      rw [List.cons_append, session, session]
      cases (i.evaluate d).run m with
      | ok v m₁ => exact ih _
      | error s m₁ => cases s <;> rfl

theorem Interpreter.evaluate_buffered (i : Interpreter) (d : Datum) : (i.evaluate d).Buffered := by
  refine (Run.closed_buffered.fresh _).bind fun e => ?_
  exact Lisp.evaluate_buffered i.limits i.fuel e global

/-! ## What entries show -/

def ReplEntry.shown (entries : List ReplEntry) : ByteArray :=
  entries.foldl (fun out entry => out ++ entry.bytes) .empty

theorem ReplEntry.foldl_bytes (entries : List ReplEntry) (out : ByteArray) :
    entries.foldl (fun out entry => out ++ entry.bytes) out = out ++ shown entries := by
  induction entries generalizing out with
  | nil => simp [shown]
  | cons entry entries ih =>
      have hcons : shown (entry :: entries) = .empty ++ entry.bytes ++ shown entries :=
        ih (ByteArray.empty ++ entry.bytes)
      rw [List.foldl_cons, ih, hcons, ByteArray.empty_append, ByteArray.append_assoc]

@[simp] theorem ReplEntry.shown_nil : shown [] = .empty := rfl

@[simp] theorem ReplEntry.shown_cons (entry : ReplEntry) (entries : List ReplEntry) :
    shown (entry :: entries) = entry.bytes ++ shown entries := by
  rw [shown, List.foldl_cons, foldl_bytes, ByteArray.empty_append]

@[simp] theorem ReplEntry.shown_append (entries entries' : List ReplEntry) :
    shown (entries ++ entries') = shown entries ++ shown entries' := by
  rw [shown, List.foldl_append, foldl_bytes]
  rfl

namespace Repl

/-! ## The end of a session -/

/-- The dialogue evaluates under a depth limit, so fuel never matters. -/
theorem evaluate_ne_outOfFuel (d : Datum) (m m₁ : Machine) :
    (interpreter.evaluate d).run m ≠ .error .outOfFuel m₁ := by
  intro h
  have hstop : Stop.outOfFuel = .error (.tooDeep 512) := eval_eq_of_isDepth rfl rfl h
  cases hstop

theorem session_ends_with_error {ds : List Datum} {m : Machine} {s : Stop}
    (h : (interpreter.session ds m).1 = some s) : ∃ e, s = .error e := by
  induction ds generalizing m with
  | nil => cases h
  | cons d ds ih =>
      cases hrun : (interpreter.evaluate d).run m with
      | ok v m₁ =>
          rw [Interpreter.session_of_ok hrun] at h
          exact ih h
      | error s' m₁ =>
          cases s' with
          | error e =>
              rw [Interpreter.session_of_error hrun] at h
              exact ⟨e, (Option.some.inj h).symm⟩
          | outOfFuel => exact absurd hrun (evaluate_ne_outOfFuel d m m₁)

/-! ## One group -/

section

variable {d : Datum} {m m₁ : Machine}

theorem evaluateEach_of_ok {v : Value} (h : (interpreter.evaluate d).run m = .ok v m₁)
    (ds : List Datum) :
    evaluateEach (d :: ds) m =
      (.printed m₁.sink.bytes :: .value v :: (evaluateEach ds (m₁.withSink (.empty none))).1,
        (evaluateEach ds (m₁.withSink (.empty none))).2) := by
  rw [evaluateEach, h]
  rfl

theorem evaluateEach_of_error {e : Error}
    (h : (interpreter.evaluate d).run m = .error (.error e) m₁) (ds : List Datum) :
    evaluateEach (d :: ds) m =
      ([.printed m₁.sink.bytes, .error e], m₁.withSink (.empty none)) := by
  rw [evaluateEach, h]
  rfl

theorem evaluateEach_of_outOfFuel (h : (interpreter.evaluate d).run m = .error .outOfFuel m₁)
    (ds : List Datum) :
    evaluateEach (d :: ds) m = ([.printed m₁.sink.bytes], m₁.withSink (.empty none)) := by
  rw [evaluateEach, h]
  rfl

end

/-- A group of expressions shows what a session with them writes, and leaves the machine of that
session with an empty sink. -/
theorem evaluateEach_session (ds : List Datum) {m : Machine} (hm : m.sink = .empty none)
    (before : ByteArray) :
    (evaluateEach ds m).2.sink = .empty none ∧
      (interpreter.session ds (m.withSink ⟨before, none⟩)).2 =
        (evaluateEach ds m).2.withSink ⟨before ++ ReplEntry.shown (evaluateEach ds m).1, none⟩ := by
  induction ds generalizing m before with
  | nil => exact ⟨hm, by simp [evaluateEach, Interpreter.session]⟩
  | cons d ds ih =>
      obtain ⟨out, r, hwrites⟩ := interpreter.evaluate_buffered d m
      have hrun : (interpreter.evaluate d).run m = Run.withSink ⟨out, none⟩ r := by
        have h := hwrites.accepted m.sink (by rw [hm]; rfl)
        rwa [Machine.withSink_self, hm, Sink.empty, Sink.put_unlimited, ByteArray.empty_append] at h
      have hsession : (interpreter.evaluate d).run (m.withSink ⟨before, none⟩) =
          Run.withSink ⟨before ++ out, none⟩ r :=
        hwrites.accepted ⟨before, none⟩ rfl
      cases r with
      | ok v m₁ =>
          rw [evaluateEach_of_ok hrun, Interpreter.session_of_ok hsession]
          have hrest := @ih (m₁.withSink (.empty none)) rfl
            (before ++ out ++ ("=> " ++ v.print ++ "\n").toUTF8)
          refine ⟨hrest.1, hrest.2.trans ?_⟩
          simp [ReplEntry.bytes, ByteArray.append_assoc]
      | error s m₁ =>
          cases s with
          | error e =>
              rw [evaluateEach_of_error hrun, Interpreter.session_of_error hsession]
              refine ⟨rfl, ?_⟩
              simp [ReplEntry.bytes, Machine.shows_unlimited, ByteArray.append_assoc]
          | outOfFuel =>
              rw [evaluateEach_of_outOfFuel hrun, Interpreter.session_of_outOfFuel hsession]
              refine ⟨rfl, ?_⟩
              simp [ReplEntry.bytes]

/-! ## Groups -/

/-- Evaluates groups of expressions one after the other; an error ends only its own group. -/
def evaluateGroups : List (List Datum) → Machine → List ReplEntry × Machine
  | [], m => ([], m)
  | ds :: groups, m =>
    let (entries, m₁) := evaluateEach ds m
    let (more, m₂) := evaluateGroups groups m₁
    (entries ++ more, m₂)

theorem evaluateGroups_concat (groups : List (List Datum)) (ds : List Datum) (m : Machine) :
    evaluateGroups (groups ++ [ds]) m =
      ((evaluateGroups groups m).1 ++ (evaluateEach ds (evaluateGroups groups m).2).1,
        (evaluateEach ds (evaluateGroups groups m).2).2) := by
  induction groups generalizing m with
  | nil => simp [evaluateGroups]
  | cons group groups ih => simp [evaluateGroups, ih]

/-- Groups show what a session with all their expressions writes, and more after an error. Without
one they leave the machine of the session. -/
theorem evaluateGroups_session (groups : List (List Datum)) {m : Machine}
    (hm : m.sink = .empty none) (before : ByteArray) :
    (∃ more, before ++ ReplEntry.shown (evaluateGroups groups m).1 =
      (interpreter.session groups.flatten (m.withSink ⟨before, none⟩)).2.sink.bytes ++ more) ∧
    ((interpreter.session groups.flatten (m.withSink ⟨before, none⟩)).1 = none →
      (interpreter.session groups.flatten (m.withSink ⟨before, none⟩)).2 =
        (evaluateGroups groups m).2.withSink
          ⟨before ++ ReplEntry.shown (evaluateGroups groups m).1, none⟩) := by
  induction groups generalizing m before with
  | nil => exact ⟨⟨.empty, by simp [evaluateGroups, Interpreter.session]⟩,
      fun _ => by simp [evaluateGroups, Interpreter.session]⟩
  | cons ds groups ih =>
      obtain ⟨hsink, hsession⟩ := evaluateEach_session ds hm before
      have hrest := ih hsink (before ++ ReplEntry.shown (evaluateEach ds m).1)
      rw [← hsession] at hrest
      simp only [List.flatten_cons, Interpreter.session_append, evaluateGroups,
        ReplEntry.shown_append, ← ByteArray.append_assoc]
      split
      · exact hrest
      · rename_i herror
        refine ⟨⟨ReplEntry.shown (evaluateGroups groups (evaluateEach ds m).2).1, ?_⟩, ?_⟩
        · rw [hsession]
          rfl
        · intro hok
          exact absurd hok herror

end Repl

end Lisp
