import Lisp.Proofs.Reader.Lines
import Lisp.Proofs.Repl.Session

/-! # The dialogue line by line

The dialogue reads its buffer anew after each line. On a text that can be read as a whole, the
lines so far are complete or unfinished and never refused, and each time they are complete the
buffer holds exactly the expressions that came since. So the dialogue evaluates the expressions
of the text in order, in groups that end with a line: `Progress` is where it stands after any
number of lines. -/

namespace Lisp

/-- Neither the greeting nor a prompt nor the farewell. -/
def ReplEntry.isAnswer : ReplEntry → Bool
  | banner | prompt _ | farewell => false
  | printed _ | value _ | error _ | help | environment _ => true

namespace Repl

open ReplEntry (block shown)

/-! ## One line -/

/-- The line is a command if nothing is pending. -/
def isCommand (line : String) : Bool :=
  Text.trim line ∈ [":help", ":env", ":quit", ":exit"]

variable {r : Repl} {line : String}

theorem line_of_blank (hbuffer : r.buffer = "") (h : Text.trim line = "") :
    r.line line = ([], some r) := by
  simp [Repl.line, hbuffer, h]

theorem line_of_collect (h : r.buffer = "" → Text.trim line ≠ "" ∧ isCommand line = false) :
    r.line line = ((r.collect line).1, some (r.collect line).2) := by
  unfold Repl.line
  split
  · rename_i hempty
    have hline := h (String.isEmpty_iff.mp hempty)
    simp only [isCommand, List.mem_cons, List.not_mem_nil, or_false, decide_eq_false_iff_not,
      not_or] at hline
    split
    · rename_i htrim
      exact absurd htrim hline.1
    · rename_i htrim
      exact absurd htrim hline.2.1
    · rename_i htrim
      exact absurd htrim hline.2.2.1
    · rename_i htrim
      exact absurd htrim hline.2.2.2.1
    · rename_i htrim
      exact absurd htrim hline.2.2.2.2
    · rfl
  · rfl

theorem collect_of_complete {ds : List Datum}
    (h : readBuffer interpreter.limits.parse (r.buffer ++ line ++ "\n") = .complete ds) :
    r.collect line = ((evaluateEach ds r.machine).1, ⟨(evaluateEach ds r.machine).2, ""⟩) := by
  simp [collect, h]

theorem collect_of_needsMore
    (h : readBuffer interpreter.limits.parse (r.buffer ++ line ++ "\n") = .needsMore) :
    r.collect line = ([], { r with buffer := r.buffer ++ line ++ "\n" }) := by
  simp [collect, h]

/-! ## Lines one after the other -/

/-- What lines lead to, without the prompts: the entries, and the dialogue that is left. -/
def feed (r : Repl) : List String → List ReplEntry × Option Repl
  | [] => ([], some r)
  | line :: lines =>
    match r.line line with
    | (entries, some r') => (entries ++ (r'.feed lines).1, (r'.feed lines).2)
    | (entries, none) => (entries, none)

theorem feed_concat {lines : List String} {entries : List ReplEntry} {r' : Repl}
    (h : r.feed lines = (entries, some r')) (line : String) :
    r.feed (lines ++ [line]) = (entries ++ (r'.line line).1, (r'.line line).2) := by
  induction lines generalizing r entries with
  | nil =>
      cases h
      rw [List.nil_append, feed]
      split <;> rename_i hline <;> simp [hline, feed]
  | cons l lines ih =>
      rw [feed] at h
      split at h
      · rename_i es r₁ hline
        obtain ⟨rfl, hnext⟩ := Prod.mk.inj h
        have hrest := ih (Prod.ext rfl hnext)
        simp [feed, hline, hrest]
      · cases h

/-! ## Where the dialogue stands -/

theorem block_concat (lines : List String) (line : String) :
    block (lines ++ [line]) = block lines ++ line ++ "\n" := by
  simp [block, String.append_assoc]

/-- After `k` lines the first `i` have been read and evaluated as `groups`, and those behind them
are in the buffer and unfinished. -/
structure Progress (lines : List String) (k i : Nat) (groups : List (List Datum))
    (entries : List ReplEntry) (r : Repl) : Prop where
  le : i ≤ k
  read : verdictsOf interpreter.limits.parse (tokensOfLines (lines.take i)) =
    groups.flatten.map .ok
  waiting : ∀ j, i < j → j ≤ k →
    readBuffer interpreter.limits.parse (block (lines.take j)) = .needsMore
  feed_eq : start.feed (lines.take k) = (entries, some r)
  evaluated : evaluateGroups groups (.initial none) = (entries, r.machine)
  buffer : r.buffer = block ((lines.take k).drop i)

theorem progress_zero (lines : List String) : Progress lines 0 0 [] [] start where
  le := Nat.le_refl 0
  read := by simp [verdictsOf, readTokens]
  waiting j hj hle := absurd hj (Nat.not_lt.mpr hle)
  feed_eq := rfl
  evaluated := rfl
  buffer := rfl

def Readable (lines : List String) (data : List Datum) : Prop :=
  verdictsOf interpreter.limits.parse (tokensOfLines lines) = data.map .ok

section Step

variable {lines : List String} {data : List Datum} {k i : Nat}

theorem tokensOfLines_take_drop (lines : List String) (h : i ≤ k) :
    tokensOfLines (lines.take k) =
      tokensOfLines (lines.take i) ++ tokensOfLines ((lines.take k).drop i) := by
  have htake : (lines.take k).take i = lines.take i := by
    rw [List.take_take, Nat.min_eq_left h]
  rw [← htake, ← tokensOfLines_append, List.take_append_drop]

/-- No fault stands in the first lines of a text that can be read. -/
theorem Readable.isOk_of_complete (h : Readable lines data) (k : Nat)
    {v : Except ReadError Datum}
    (hv : v ∈ verdictsOf interpreter.limits.parse (tokensOfLines (lines.take k)))
    (hcomplete : isIncomplete v = false) : v.isOk = true := by
  have hlater := mem_verdictsOf_append hv hcomplete (tokensOfLines (lines.drop k))
  rw [← tokensOfLines_append, List.take_append_drop, h] at hlater
  obtain ⟨d, -, rfl⟩ := List.mem_map.mp hlater
  rfl

theorem readBuffer_block_eq_complete_iff {ds : List Datum} :
    readBuffer interpreter.limits.parse (block lines) = .complete ds ↔
      verdictsOf interpreter.limits.parse (tokensOfLines lines) = ds.map .ok := by
  rw [readBuffer_eq_complete_iff, tokensOf_block]

variable {groups : List (List Datum)} {entries : List ReplEntry}

/-- What the lines behind the first `i` amount to does not depend on those. -/
theorem Progress.verdicts_eq {k' : Nat} (hp : Progress lines k i groups entries r) (h : i ≤ k') :
    verdictsOf interpreter.limits.parse (tokensOfLines (lines.take k')) =
      groups.flatten.map .ok ++
        verdictsOf interpreter.limits.parse (tokensOfLines ((lines.take k').drop i)) := by
  rw [tokensOfLines_take_drop lines h, verdictsOf_append, hp.read]
  intro v hv
  rw [hp.read] at hv
  obtain ⟨d, -, rfl⟩ := List.mem_map.mp hv
  rfl

/-- The buffer of a text that can be read is never refused, and it is complete exactly if all lines
so far are. -/
theorem Progress.readBuffer_pending {k' : Nat} (hp : Progress lines k i groups entries r)
    (hdata : Readable lines data) (h : i ≤ k') :
    (∃ ds, readBuffer interpreter.limits.parse (block ((lines.take k').drop i)) = .complete ds ∧
      verdictsOf interpreter.limits.parse (tokensOfLines (lines.take k')) =
        (groups.flatten ++ ds).map .ok) ∨
    (readBuffer interpreter.limits.parse (block ((lines.take k').drop i)) = .needsMore ∧
      readBuffer interpreter.limits.parse (block (lines.take k')) = .needsMore) := by
  have hverdicts := hp.verdicts_eq h
  cases hpending : readBuffer interpreter.limits.parse (block ((lines.take k').drop i)) with
  | complete ds =>
      refine .inl ⟨ds, rfl, ?_⟩
      rw [hverdicts, readBuffer_block_eq_complete_iff.mp hpending, List.map_append]
  | invalid e =>
      obtain ⟨v, hv, hcomplete, herror⟩ := exists_fault_of_invalid hpending
      rw [tokensOf_block] at hv
      have hok := hdata.isOk_of_complete k' (by rw [hverdicts]; exact List.mem_append_right _ hv)
        hcomplete
      rw [herror] at hok
      cases hok
  | needsMore =>
      refine .inr ⟨rfl, ?_⟩
      cases hall : readBuffer interpreter.limits.parse (block (lines.take k')) with
      | needsMore => rfl
      | invalid e =>
          obtain ⟨v, hv, hcomplete, herror⟩ := exists_fault_of_invalid hall
          rw [tokensOf_block] at hv
          rw [hdata.isOk_of_complete k' hv hcomplete] at herror
          cases herror
      | complete ds =>
          -- then the lines in the buffer would be complete too
          rw [readBuffer_block_eq_complete_iff, hverdicts] at hall
          obtain ⟨ds₁, ds₂, rfl, -, hds₂⟩ := List.append_eq_map_iff.mp hall
          rw [readBuffer_block_eq_complete_iff.mpr hds₂.symm] at hpending
          cases hpending

theorem drop_take_succ (hline : lines[k]? = some line) (h : i ≤ k) :
    (lines.take (k + 1)).drop i = (lines.take k).drop i ++ [line] := by
  have hk : k < lines.length := (List.getElem?_eq_some_iff.mp hline).1
  have hle : i ≤ (lines.take k).length := by
    rw [List.length_take]
    omega
  rw [List.take_add_one, hline, Option.toList_some, List.drop_append_of_le_length hle]

theorem Progress.feed_succ (hp : Progress lines k i groups entries r)
    (hline : lines[k]? = some line) :
    start.feed (lines.take (k + 1)) = (entries ++ (r.line line).1, (r.line line).2) := by
  rw [List.take_add_one, hline, Option.toList_some]
  exact feed_concat hp.feed_eq line

theorem Progress.buffer_succ (hp : Progress lines k i groups entries r)
    (hline : lines[k]? = some line) :
    r.buffer ++ line ++ "\n" = block ((lines.take (k + 1)).drop i) := by
  rw [drop_take_succ hline hp.le, block_concat, hp.buffer]

theorem block_drop_take (lines : List String) (k : Nat) : block ((lines.take k).drop k) = "" := by
  rw [List.drop_eq_nil_of_le (List.length_take_le _ _)]
  rfl

/-- A blank line in front of the next expression is skipped. -/
theorem Progress.skip (hp : Progress lines k i groups entries r) (hline : lines[k]? = some line)
    (hbuffer : r.buffer = "") (hblank : Text.trim line = "") :
    Progress lines (k + 1) (k + 1) groups entries r := by
  have htokens : tokensOfLines ((lines.take (k + 1)).drop i) = [] := by
    have hempty := tokensOf_block ((lines.take k).drop i)
    rw [← hp.buffer, hbuffer] at hempty
    simp [drop_take_succ hline hp.le, ← hempty, tokensOf_of_trim hblank]
  refine ⟨Nat.le_refl _, ?_, ?_, ?_, hp.evaluated, ?_⟩
  · rw [hp.verdicts_eq (Nat.le_succ_of_le hp.le), htokens]
    simp [verdictsOf, readTokens]
  · exact fun j hj hle => absurd hj (Nat.not_lt.mpr hle)
  · rw [hp.feed_succ hline, line_of_blank hbuffer hblank, List.append_nil]
  · rw [block_drop_take, hbuffer]

/-- A line that completes the buffer has the expressions in it evaluated as one more group. -/
theorem Progress.complete (hp : Progress lines k i groups entries r)
    (hline : lines[k]? = some line)
    (hcollect : r.line line = ((r.collect line).1, some (r.collect line).2)) {ds : List Datum}
    (hpending : readBuffer interpreter.limits.parse (block ((lines.take (k + 1)).drop i)) =
      .complete ds)
    (hread : verdictsOf interpreter.limits.parse (tokensOfLines (lines.take (k + 1))) =
      (groups.flatten ++ ds).map .ok) :
    Progress lines (k + 1) (k + 1) (groups ++ [ds]) (entries ++ (evaluateEach ds r.machine).1)
      ⟨(evaluateEach ds r.machine).2, ""⟩ := by
  rw [← hp.buffer_succ hline] at hpending
  refine ⟨Nat.le_refl _, ?_, ?_, ?_, ?_, (block_drop_take lines (k + 1)).symm⟩
  · simpa using hread
  · exact fun j hj hle => absurd hj (Nat.not_lt.mpr hle)
  · rw [hp.feed_succ hline, hcollect, collect_of_complete hpending]
  · rw [evaluateGroups_concat, hp.evaluated]

/-- A line that leaves the buffer unfinished is only added to it. -/
theorem Progress.wait (hp : Progress lines k i groups entries r) (hline : lines[k]? = some line)
    (hcollect : r.line line = ((r.collect line).1, some (r.collect line).2))
    (hpending : readBuffer interpreter.limits.parse (block ((lines.take (k + 1)).drop i)) =
      .needsMore)
    (hall : readBuffer interpreter.limits.parse (block (lines.take (k + 1))) = .needsMore) :
    Progress lines (k + 1) i groups entries { r with buffer := r.buffer ++ line ++ "\n" } := by
  rw [← hp.buffer_succ hline] at hpending
  refine ⟨Nat.le_succ_of_le hp.le, hp.read, ?_, ?_, hp.evaluated, hp.buffer_succ hline⟩
  · intro j hj hle
    rcases Nat.le_succ_iff.mp hle with hle | rfl
    · exact hp.waiting j hj hle
    · exact hall
  · rw [hp.feed_succ hline, hcollect, collect_of_needsMore hpending, List.append_nil]

theorem Progress.step (hp : Progress lines k i groups entries r) (hdata : Readable lines data)
    (hline : lines[k]? = some line) (hcommand : r.buffer = "" → isCommand line = false) :
    ∃ i' groups' entries' r', Progress lines (k + 1) i' groups' entries' r' := by
  by_cases hblank : r.buffer = "" ∧ Text.trim line = ""
  · exact ⟨_, _, _, _, hp.skip hline hblank.1 hblank.2⟩
  · have hcollect : r.line line = ((r.collect line).1, some (r.collect line).2) :=
      line_of_collect fun hempty => ⟨fun htrim => hblank ⟨hempty, htrim⟩, hcommand hempty⟩
    rcases hp.readBuffer_pending hdata (Nat.le_succ_of_le hp.le) with
      ⟨ds, hpending, hread⟩ | ⟨hpending, hall⟩
    · exact ⟨_, _, _, _, hp.complete hline hcollect hpending hread⟩
    · exact ⟨_, _, _, _, hp.wait hline hcollect hpending hall⟩

end Step

/-! ## Whole texts -/

section Whole

variable {lines : List String} {data : List Datum} {groups : List (List Datum)}
  {entries : List ReplEntry}

/-- No line that comes when nothing is pending is a command. -/
def WithoutCommands (lines : List String) : Prop :=
  ∀ (k : Nat) (line : String) (entries : List ReplEntry) (r : Repl), lines[k]? = some line →
    start.feed (lines.take k) = (entries, some r) → r.buffer = "" → isCommand line = false

theorem exists_progress (hdata : Readable lines data) (hcommands : WithoutCommands lines) {k : Nat}
    (hk : k ≤ lines.length) : ∃ i groups entries r, Progress lines k i groups entries r := by
  induction k with
  | zero => exact ⟨0, [], [], start, progress_zero lines⟩
  | succ k ih =>
      obtain ⟨i, groups, entries, r, hp⟩ := ih (Nat.le_of_succ_le hk)
      have hline : lines[k]? = some lines[k] := List.getElem?_eq_getElem hk
      exact hp.step hdata hline (hcommands k _ entries r hline hp.feed_eq)

/-- After the last line nothing is pending. -/
theorem Progress.finished {i : Nat} (hp : Progress lines lines.length i groups entries r)
    (hdata : Readable lines data) : groups.flatten = data ∧ r.buffer = "" := by
  have hi : i = lines.length := by
    refine Nat.le_antisymm hp.le (Nat.le_of_not_lt fun hlt => ?_)
    have hwaiting := hp.waiting lines.length hlt (Nat.le_refl _)
    rw [List.take_length, readBuffer_block_eq_complete_iff.mpr hdata] at hwaiting
    cases hwaiting
  subst hi
  have hread := hp.read
  rw [List.take_length, hdata] at hread
  refine ⟨((List.map_inj_right fun _ _ => Except.ok.inj).mp hread).symm, ?_⟩
  rw [hp.buffer, List.take_length, List.drop_length]
  rfl

/-- What is evaluated after some lines stands at the beginning of the text. -/
theorem Progress.flatten_le {k i : Nat} (hp : Progress lines k i groups entries r)
    (hdata : Readable lines data) : groups.flatten <+: data := by
  have hle : i ≤ lines.length + i := Nat.le_add_left _ _
  have hverdicts := hp.verdicts_eq hle
  rw [List.take_of_length_le (Nat.le_add_right _ _), hdata] at hverdicts
  obtain ⟨ds₁, ds₂, rfl, hds₁, -⟩ := List.append_eq_map_iff.mp hverdicts.symm
  rw [(List.map_inj_right fun _ _ => Except.ok.inj).mp hds₁]
  exact List.prefix_append _ _

end Whole

/-! ## The transcript -/

theorem isAnswer_of_mem_evaluateEach {ds : List Datum} {m : Machine} {entry : ReplEntry}
    (h : entry ∈ (evaluateEach ds m).1) : entry.isAnswer = true := by
  induction ds generalizing m with
  | nil => simp [evaluateEach] at h
  | cons d ds ih =>
      cases hrun : (interpreter.evaluate d).run m with
      | ok v m₁ =>
          rw [evaluateEach_of_ok hrun] at h
          simp only [List.mem_cons] at h
          rcases h with rfl | rfl | h
          · rfl
          · rfl
          · exact ih h
      | error s m₁ =>
          cases s with
          | error e =>
              rw [evaluateEach_of_error hrun] at h
              simp only [List.mem_cons, List.not_mem_nil, or_false] at h
              rcases h with rfl | rfl <;> rfl
          | outOfFuel => exact absurd hrun (evaluate_ne_outOfFuel d m m₁)

theorem isAnswer_of_mem_evaluateGroups {groups : List (List Datum)} {m : Machine}
    {entry : ReplEntry} (h : entry ∈ (evaluateGroups groups m).1) : entry.isAnswer = true := by
  induction groups generalizing m with
  | nil => simp [evaluateGroups] at h
  | cons ds groups ih =>
      rcases List.mem_append.mp h with h | h
      · exact isAnswer_of_mem_evaluateEach h
      · exact ih h

theorem filter_transcriptFrom {lines : List String} {entries : List ReplEntry} {r' : Repl}
    (h : r.feed lines = (entries, some r')) :
    (r.transcriptFrom lines).filter ReplEntry.isAnswer = entries.filter ReplEntry.isAnswer := by
  induction lines generalizing r entries with
  | nil =>
      cases h
      rfl
  | cons line lines ih =>
      rw [feed] at h
      split at h
      · rename_i es r₁ hline
        obtain ⟨rfl, hnext⟩ := Prod.mk.inj h
        have hrest := ih (Prod.ext rfl hnext)
        have hfirst : r.transcriptFrom (line :: lines) =
            r.prompt :: (es ++ r₁.transcriptFrom lines) := by
          rw [transcriptFrom, hline]
          rfl
        rw [hfirst, List.filter_cons_of_neg (by simp [prompt, ReplEntry.isAnswer]),
          List.filter_append, List.filter_append, hrest]
      · cases h

/-! ## Dialogue and session -/

/-- The entries and the machine come of evaluating the expressions in order, in groups of which
each goes up to its first error. They show what a session with the expressions writes, and, if
that ends with an error, go on behind it; otherwise the machine is the one of the session. -/
structure Follows (data : List Datum) (entries : List ReplEntry) (m : Machine) : Prop where
  groups : ∃ groups : List (List Datum), groups.flatten = data ∧
    evaluateGroups groups (.initial none) = (entries, m)
  shows : ∃ more, shown entries =
    (interpreter.session data (.initial none)).2.sink.bytes ++ more
  ends : ∀ s, (interpreter.session data (.initial none)).1 = some s → ∃ e, s = .error e
  whole : (interpreter.session data (.initial none)).1 = none →
    (interpreter.session data (.initial none)).2 = m.withSink ⟨shown entries, none⟩

theorem follows_of_evaluateGroups {groups : List (List Datum)} {entries : List ReplEntry}
    {m : Machine} (h : evaluateGroups groups (.initial none) = (entries, m)) :
    Follows groups.flatten entries m := by
  have hsession := evaluateGroups_session groups (m := .initial none) rfl .empty
  rw [h, ByteArray.empty_append] at hsession
  exact ⟨⟨groups, rfl, h⟩, hsession.1, fun s => session_ends_with_error, hsession.2⟩

/-- The dialogue refines a session with the whole text. Let the text be one that can be read as a
whole, in which no line that comes when nothing is pending is a command. After any number of lines
the dialogue has evaluated the expressions of the lines up to the last point at which they were
complete, in order; all that came later is unfinished. In the end it has evaluated all expressions
of the text, and its output without greeting, prompts and farewell is what the session with them
writes, up to and with the first error. -/
theorem dialogue_refines_session {text : String} {data : List Datum}
    (hread : (Reader.ofSource text Limits.bounded.parse).readAll = .ok data)
    (hcommands : WithoutCommands (Text.lines text)) :
    let lines := Text.lines text
    (∀ k ≤ lines.length, ∃ i ≤ k, ∃ ds entries r,
      (Reader.ofSource (block (lines.take i)) Limits.bounded.parse).readAll = .ok ds ∧
      ds <+: data ∧
      (∀ j, i < j → j ≤ k →
        readBuffer Limits.bounded.parse (block (lines.take j)) = .needsMore) ∧
      start.feed (lines.take k) = (entries, some r) ∧ Follows ds entries r.machine) ∧
    ∃ r, start.feed lines = ((transcript text).filter ReplEntry.isAnswer, some r) ∧
      r.buffer = "" ∧ Follows data ((transcript text).filter ReplEntry.isAnswer) r.machine := by
  intro lines
  have hdata : Readable lines data := by
    rw [Readable, tokensOfLines_lines]
    exact Reader.readAll_eq_ok_iff.mp hread
  constructor
  · intro k hk
    obtain ⟨i, groups, entries, r, hp⟩ := exists_progress hdata hcommands hk
    refine ⟨i, hp.le, groups.flatten, entries, r, ?_, hp.flatten_le hdata, hp.waiting, hp.feed_eq,
      follows_of_evaluateGroups hp.evaluated⟩
    rw [Reader.readAll_eq_ok_iff, tokensOf_block]
    exact hp.read
  · obtain ⟨i, groups, entries, r, hp⟩ := exists_progress hdata hcommands (Nat.le_refl lines.length)
    obtain ⟨rfl, hbuffer⟩ := hp.finished hdata
    have hfeed := hp.feed_eq
    rw [List.take_length] at hfeed
    have hanswers : ∀ entry ∈ entries, entry.isAnswer = true := by
      intro entry hentry
      have hgroups : (evaluateGroups groups (.initial none)).1 = entries := by rw [hp.evaluated]
      rw [← hgroups] at hentry
      exact isAnswer_of_mem_evaluateGroups hentry
    have hfilter : (transcript text).filter ReplEntry.isAnswer = entries := by
      rw [← List.filter_eq_self.mpr hanswers, ← filter_transcriptFrom hfeed]
      rfl
    rw [hfilter]
    exact ⟨r, hfeed, hbuffer, follows_of_evaluateGroups hp.evaluated⟩

/-- An expression over two lines with a carriage return between, a comment, a blank line, and an
error before the last line. -/
theorem dialogue_refines_session_lines :
    let text := "(SET X 1) (PRINT\r\n X) ; x\n\n(CAR X)\n2"
    let name (s : String) : Datum := .symbol (.ofName s)
    let list (ds : List Datum) : Datum := .ofList ds .nil
    let data := [list [name "SET", name "X", .number 1], list [name "PRINT", name "X"],
      list [name "CAR", name "X"], .number 2]
    let written :=
      "=> 1\n1\n=> 1\nError: Not a list: cannot take the first element of atom 1\n".toUTF8
    (Reader.ofSource text Limits.bounded.parse).readAll = .ok data ∧
    WithoutCommands (Text.lines text) ∧
    (interpreter.session data (.initial none)).2.sink.bytes = written ∧
    ∃ more, shown ((transcript text).filter ReplEntry.isAnswer) = written ++ more := by
  intro text name list data written
  have hread : (Reader.ofSource text Limits.bounded.parse).readAll = .ok data := by decide +kernel
  have hcommands : WithoutCommands (Text.lines text) := by
    have hnone : ∀ line ∈ Text.lines text, isCommand line = false := by decide +kernel
    exact fun k line entries r hline _ _ => hnone line (List.mem_of_getElem? hline)
  have hwritten : (interpreter.session data (.initial none)).2.sink.bytes = written := by
    decide +kernel
  obtain ⟨-, r, -, -, hfollows⟩ := dialogue_refines_session hread hcommands
  exact ⟨hread, hcommands, hwritten, hwritten ▸ hfollows.shows⟩

end Repl

end Lisp
