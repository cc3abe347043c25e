import Lisp.Proofs.Evaluation.Closure
import Lisp.Proofs.Evaluation.Depth

/-! # What evaluation writes

Evaluation never looks at the sink: it decides what it writes, and the sink only decides how much
of it arrives. `Run.Buffered` says that a computation does to any sink what one write of all its
output would do, and stops if that write is refused. -/

namespace Lisp

/-! ## Writing in pieces -/

namespace Sink

/-- Writes bytes; the answer says whether all of them were accepted. -/
def put (k : Sink) (bytes : ByteArray) : Bool × Sink :=
  if k.accepts bytes.size then
    (true, k.append bytes)
  else
    (false, k.append (bytes.extract 0 (k.room.getD 0)))

theorem write_eq_put (k : Sink) (text : String) : k.write text = k.put text.toUTF8 := rfl

@[simp] theorem put_empty (k : Sink) : k.put .empty = (true, k) := by
  cases k with
  | mk bytes room => cases room <;> simp [put, accepts, append]

@[simp] theorem put_unlimited (bytes out : ByteArray) :
    put ⟨bytes, none⟩ out = (true, ⟨bytes ++ out, none⟩) := rfl

theorem put_of_le {bytes out : ByteArray} {n : Nat} (h : out.size ≤ n) :
    put ⟨bytes, some n⟩ out = (true, ⟨bytes ++ out, some (n - out.size)⟩) := by
  simp [put, accepts, append, h]

theorem put_of_lt {bytes out : ByteArray} {n : Nat} (h : n < out.size) :
    put ⟨bytes, some n⟩ out = (false, ⟨bytes ++ out.extract 0 n, some 0⟩) := by
  have hroom : n - min n out.size = 0 := by omega
  simp [put, accepts, append, Nat.not_le_of_lt h, hroom]

/-- It makes no difference into how many pieces a text is cut: a piece that is refused is the last,
and the sink is filled to the same byte. -/
theorem put_append (k : Sink) (a b : ByteArray) :
    k.put (a ++ b) = if (k.put a).1 then (k.put a).2.put b else k.put a := by
  cases k with
  | mk bytes room =>
      cases room with
      | none => simp [ByteArray.append_assoc]
      | some n =>
          rcases Nat.lt_or_ge n a.size with ha | ha
          · -- the first piece is refused already
            have hfirst : (a ++ b).extract 0 n = a.extract 0 n := by
              have hnone : b.extract (0 - a.size) (n - a.size) = .empty :=
                ByteArray.extract_eq_empty_iff.mpr (by omega)
              rw [ByteArray.extract_append, hnone, ByteArray.append_empty]
            have hab : n < (a ++ b).size := by
              rw [ByteArray.size_append]
              omega
            rw [put_of_lt ha, put_of_lt hab, hfirst]
            rfl
          · have hself : a.extract 0 n = a :=
              ByteArray.ext (ByteArray.data_extract.trans (Array.extract_eq_self_of_le ha))
            rw [put_of_le ha]
            simp only [if_true]
            rcases Nat.lt_or_ge (n - a.size) b.size with hb | hb
            · have hab : n < (a ++ b).size := by
                rw [ByteArray.size_append]
                omega
              rw [put_of_lt hb, put_of_lt hab, ByteArray.extract_append, hself, Nat.zero_sub,
                ByteArray.append_assoc]
            · have hab : (a ++ b).size ≤ n := by
                rw [ByteArray.size_append]
                omega
              rw [put_of_le hb, put_of_le hab, ByteArray.size_append, Nat.sub_sub,
                ByteArray.append_assoc]

/-- What the sink has received stays in front. -/
theorem exists_bytes_put (k : Sink) (out : ByteArray) :
    ∃ more, (k.put out).2.bytes = k.bytes ++ more := by
  unfold put
  split
  · exact ⟨out, rfl⟩
  · exact ⟨_, rfl⟩

end Sink

/-! ## Computations and their output -/

def Machine.withSink (m : Machine) (k : Sink) : Machine :=
  { m with sink := k }

@[simp] theorem Machine.withSink_self (m : Machine) : m.withSink m.sink = m := rfl

@[simp] theorem Machine.withSink_withSink (m : Machine) (k k' : Sink) :
    (m.withSink k).withSink k' = m.withSink k' := rfl

@[simp] theorem Machine.sink_withSink (m : Machine) (k : Sink) : (m.withSink k).sink = k := rfl

namespace Run

variable {α β : Type}

def withSink (k : Sink) : EStateM.Result Stop Machine α → EStateM.Result Stop Machine α
  | .ok a m => .ok a (m.withSink k)
  | .error s m => .error s (m.withSink k)

/-- From the machine, over any sink, the computation has the result if the sink accepts all of
`out`, and otherwise stops when the sink is full. -/
structure Writes (c : Run α) (m : Machine) (out : ByteArray)
    (r : EStateM.Result Stop Machine α) : Prop where
  accepted : ∀ k : Sink, (k.put out).1 = true → c.run (m.withSink k) = withSink (k.put out).2 r
  refused : ∀ k : Sink, (k.put out).1 = false →
    ∃ m', c.run (m.withSink k) = .error (.error .sinkClosed) m' ∧ m'.sink = (k.put out).2

/-- What the computation writes, and its result, do not depend on the sink. -/
def Buffered (c : Run α) : Prop :=
  ∀ m, ∃ out r, Writes c m out r

theorem buffered_of_silent {c : Run α}
    (h : ∀ m k, c.run (m.withSink k) = withSink k (c.run m)) : Buffered c := by
  intro m
  refine ⟨.empty, c.run m, ?_, ?_⟩
  · intro k _
    rw [Sink.put_empty]
    exact h m k
  · intro k hk
    rw [Sink.put_empty] at hk
    cases hk

theorem buffered_pure (a : α) : Buffered (pure a : Run α) :=
  buffered_of_silent fun _ _ => rfl

theorem buffered_throw (s : Stop) : Buffered (throw s : Run α) :=
  buffered_of_silent fun _ _ => rfl

theorem buffered_lookup (f : FrameId) (x : Symbol) : Buffered (lookup f x) := by
  refine buffered_of_silent fun m k => ?_
  rw [run_lookup, run_lookup]
  show (ofExcept (m.heap.lookup f x)).run (m.withSink k) = _
  cases m.heap.lookup f x <;> rfl

theorem buffered_write (text : String) : Buffered (write text) := by
  intro m
  refine ⟨text.toUTF8, .ok () m, ?_, ?_⟩
  · intro k hk
    rw [run_write, Machine.sink_withSink, Sink.write_eq_put, if_pos hk]
    rfl
  · intro k hk
    refine ⟨m.withSink (k.put text.toUTF8).2, ?_, rfl⟩
    rw [run_write, Machine.sink_withSink, Sink.write_eq_put, if_neg (Bool.eq_false_iff.mp hk)]
    rfl

theorem Buffered.bind {c : Run α} {k : α → Run β} (hc : Buffered c) (hk : ∀ a, Buffered (k a)) :
    Buffered (c >>= k) := by
  intro m
  obtain ⟨out, r, hfirst⟩ := hc m
  cases r with
  | error s m₁ =>
      refine ⟨out, .error s m₁, ?_, ?_⟩
      · intro sink haccepted
        exact run_bind_of_error (hfirst.accepted sink haccepted)
      · intro sink hrefused
        obtain ⟨m', hstop, hsink⟩ := hfirst.refused sink hrefused
        exact ⟨m', run_bind_of_error hstop, hsink⟩
  | ok a m₁ =>
      obtain ⟨out', r, hthen⟩ := hk a m₁
      refine ⟨out ++ out', r, ?_, ?_⟩
      · intro sink haccepted
        rw [Sink.put_append] at haccepted ⊢
        split at haccepted
        · rename_i hput
          rw [if_pos hput, run_bind_of_ok (hfirst.accepted sink hput)]
          exact hthen.accepted _ haccepted
        · rename_i hput
          exact absurd haccepted hput
      · intro sink hrefused
        rw [Sink.put_append] at hrefused ⊢
        split at hrefused
        · rename_i hput
          rw [if_pos hput, run_bind_of_ok (hfirst.accepted sink hput)]
          exact hthen.refused _ hrefused
        · rename_i hput
          obtain ⟨m', hstop, hsink⟩ := hfirst.refused sink hrefused
          exact ⟨m', run_bind_of_error hstop, by rw [if_neg hput, hsink]⟩

theorem Buffered.inContext {c : Run α} (hc : Buffered c) (call : Value) :
    Buffered (Run.inContext call c) := by
  intro m
  obtain ⟨out, r, hwrites⟩ := hc m
  refine ⟨out, (Run.inContext call fun _ => r).run m, ?_, ?_⟩
  · intro k haccepted
    simp only [Run.inContext, EStateM.run_adaptExcept, hwrites.accepted k haccepted]
    cases r <;> rfl
  · intro k hrefused
    obtain ⟨m', hstop, hsink⟩ := hwrites.refused k hrefused
    refine ⟨m', ?_, hsink⟩
    simp only [Run.inContext, EStateM.run_adaptExcept, hstop]
    rfl

theorem closed_buffered : Closed Buffered where
  pure := buffered_pure
  fail _ := buffered_throw _
  fresh _ := buffered_of_silent fun _ _ => rfl
  lookup := buffered_lookup
  define _ _ _ := buffered_of_silent fun _ _ => rfl
  push _ := buffered_of_silent fun _ _ => rfl
  isRoot _ := buffered_of_silent fun _ _ => rfl
  emit _ := buffered_of_silent fun _ _ => rfl
  write := buffered_write
  bind := Buffered.bind
  inContext call _ hc := hc.inContext call

end Run

theorem evaluate_buffered (limits : Limits) (fuel : Nat) (e : Value) (f : FrameId) :
    (evaluate limits fuel e f).Buffered := by
  unfold evaluate
  cases limits.eval with
  | some m => exact Run.closed_buffered.eval (Run.buffered_throw _) m e f
  | none => exact Run.closed_buffered.eval (Run.buffered_throw _) fuel e f

/-! ## A sink that closes -/

def Run.machineOf {α : Type} : EStateM.Result Stop Machine α → Machine
  | .ok _ m | .error _ m => m

/-- A limited sink only truncates. An evaluation that ends over an unlimited sink has written some
bytes. Over a sink that accepts at least as many it ends with the same result and the same machine
but for the room left; over a sink that accepts fewer it stops for the sink, which has received
as many of the bytes as it accepts. Over any sink, what was there before the evaluation stays in
front. -/
theorem evaluate_limited_sink_truncates (limits : Limits) (e : Value) (f : FrameId) (m : Machine)
    (before : ByteArray) :
    (∀ r, EvaluatesTo limits e f (m.withSink ⟨before, none⟩) r →
      ∃ out, (Run.machineOf r).sink = ⟨before ++ out, none⟩ ∧ ∀ n,
        (out.size ≤ n → EvaluatesTo limits e f (m.withSink ⟨before, some n⟩)
          (Run.withSink ⟨before ++ out, some (n - out.size)⟩ r)) ∧
        (n < out.size → ∃ m', EvaluatesTo limits e f (m.withSink ⟨before, some n⟩)
            (.error (.error .sinkClosed) m') ∧ m'.sink.bytes = before ++ out.extract 0 n)) ∧
    (∀ fuel, ∃ more, ((evaluate limits fuel e f).after m).sink.bytes = m.sink.bytes ++ more) := by
  constructor
  · rintro r ⟨fuel, hrun, hfuel⟩
    obtain ⟨out, r', hwrites⟩ := evaluate_buffered limits fuel e f m
    have hr : r = Run.withSink ⟨before ++ out, none⟩ r' := by
      rw [← hrun]
      exact hwrites.accepted ⟨before, none⟩ rfl
    refine ⟨out, by rw [hr]; cases r' <;> rfl, fun n => ⟨fun hle => ⟨fuel, ?_, ?_⟩, fun hlt => ?_⟩⟩
    · have haccepted := hwrites.accepted ⟨before, some n⟩
      rw [Sink.put_of_le hle] at haccepted
      rw [haccepted rfl, hr]
      cases r' <;> rfl
    · intro m' hout
      cases r with
      | ok a m₁ => cases hout
      | error s m₁ =>
          cases hout
          exact hfuel m₁ rfl
    · have hrefused := hwrites.refused ⟨before, some n⟩
      rw [Sink.put_of_lt hlt] at hrefused
      obtain ⟨m', hstop, hsink⟩ := hrefused rfl
      exact ⟨m', ⟨fuel, hstop, fun m₁ h => by cases h⟩, by rw [hsink]⟩
  · intro fuel
    obtain ⟨out, r, hwrites⟩ := evaluate_buffered limits fuel e f m
    have hafter : ((evaluate limits fuel e f).after m).sink = (m.sink.put out).2 := by
      cases hput : (m.sink.put out).1 with
      | true =>
          have hrun := hwrites.accepted m.sink hput
          rw [Machine.withSink_self] at hrun
          rw [Run.after, hrun]
          cases r <;> rfl
      | false =>
          obtain ⟨m', hstop, hsink⟩ := hwrites.refused m.sink hput
          rw [Machine.withSink_self] at hstop
          rw [Run.after_of_error hstop, hsink]
    rw [hafter]
    exact m.sink.exists_bytes_put out

/-- A number of two digits is printed into a sink that accepts one byte. -/
theorem evaluate_limited_sink_truncates_print :
    let m : Machine := ⟨.empty, 2, .empty none, #[]⟩
    let call : Value :=
      .pair 0 (.symbol (Builtin.symbol (.special .print))) (.pair 1 (.number 12) .nil)
    ∃ r m', EvaluatesTo .unlimited call 0 (m.withSink ⟨.empty, none⟩) r ∧
      (Run.machineOf r).sink.bytes = "12\n".toUTF8 ∧
      EvaluatesTo .unlimited call 0 (m.withSink ⟨.empty, some 1⟩) (.error (.error .sinkClosed) m') ∧
      m'.sink.bytes = "1".toUTF8 := by
  intro m call
  have hprint : ((Value.number 12).print ++ "\n").toUTF8 = "12\n".toUTF8 := by decide +kernel
  have hends : EvaluatesTo .unlimited call 0 (m.withSink ⟨.empty, none⟩)
      (.ok (.number 12) (m.withSink ⟨.empty ++ ((Value.number 12).print ++ "\n").toUTF8, none⟩)) :=
    ⟨2, rfl, fun m' h => by cases h⟩
  rw [hprint, ByteArray.empty_append] at hends
  obtain ⟨out, hsink, hlimited⟩ :=
    (evaluate_limited_sink_truncates .unlimited call 0 m .empty).1 _ hends
  obtain rfl : "12\n".toUTF8 = out := by
    have hbytes := congrArg Sink.bytes hsink
    rwa [ByteArray.empty_append] at hbytes
  obtain ⟨m', hstop, hbytes⟩ := (hlimited 1).2 (by decide +kernel)
  refine ⟨_, m', hends, rfl, hstop, ?_⟩
  rw [hbytes]
  decide +kernel

end Lisp
