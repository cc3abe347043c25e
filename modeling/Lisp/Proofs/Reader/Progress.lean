import Lisp.Proofs.Token.Blanks

/-! # Reading again and again

A reader that is called time after time, whatever the calls before it gave, deals the tokens of its
source out to the calls: each call takes the next few, at least one, until none is left, and what
it gives is decided by the tokens it took. -/

namespace Lisp

namespace TokenStream

variable {s s' : TokenStream} {ts : List LocatedToken}

theorem Gives.located_eq (h : Gives s ts s') : s.located = ts ++ s'.located := by
  induction h with
  | nil => rfl
  | cons hnext _ ih => rw [located_of_some hnext, ih, List.cons_append]

theorem Gives.pushed_eq (h : Gives s ts s') (hs : s.pushed = none) : s'.pushed = none := by
  induction h with
  | nil => exact hs
  | cons hnext _ ih => exact ih (pushed_of_next? hnext)

/-- Reading takes tokens from the front, and feeding just these leads to the same outcome with none
of them left over. -/
theorem readFrom_gives (limit : Option Nat) (s : TokenStream) (state : ReaderState) :
    ∃ ts, Gives s ts (s.readFrom limit state).2 ∧
      (state.feedAll limit ts).report = ((s.readFrom limit state).1, []) := by
  fun_induction readFrom limit s state with
  | case1 s state h => exact ⟨[], .nil s, rfl⟩
  | case2 s state t s' h state' hfeed ih =>
      obtain ⟨ts, hgives, hreport⟩ := ih
      refine ⟨t :: ts, .cons h hgives, ?_⟩
      rw [ReaderState.feedAll_of_more hfeed, hreport]
  | case3 s state t s' h d hfeed =>
      refine ⟨[t], .cons h (.nil s'), ?_⟩
      rw [ReaderState.feedAll_of_done hfeed]
      rfl
  | case4 s state t s' h f hfeed =>
      refine ⟨[t], .cons h (.nil s'), ?_⟩
      rw [ReaderState.feedAll_of_fail hfeed]
      rfl

/-- The stream with the blanks and comments at its front behind it. -/
def skipped (s : TokenStream) : TokenStream :=
  ⟨(skipBlanks false s.offset s.rest).2, (skipBlanks false s.offset s.rest).1, s.pushed⟩

theorem pushed_of_next?_none (h : s.next? = none) : s.pushed = none := by
  cases hs : s.pushed with
  | none => rfl
  | some t => simp [next?, hs] at h

theorem next?_skipped (h : s.next? = none) : s.skipped.next? = none := by
  have hs := pushed_of_next?_none h
  have hrest : (skipBlanks false s.offset s.rest).2 = [] := by
    rw [snd_skipBlanks, (afterBlanks_eq_nil_iff s.rest).1]
    exact (next?_eq_none_iff hs).mp h
  rw [skipped, hrest, hs]
  rfl

end TokenStream

namespace Reader

/-- A call on a reader that keeps its place: what it gives and the reader after it. A call that
finds nothing leaves the blanks behind it. -/
def call (r : Reader) : Option (Except ReadError Datum) × Reader :=
  match r.read? with
  | some (result, r') => (some result, r')
  | none => (none, { r with stream := r.stream.skipped })

/-- The reader after a number of calls, whatever they gave. -/
def afterCalls (r : Reader) : Nat → Reader
  | 0 => r
  | k + 1 => (r.afterCalls k).call.2

/-! ## One call -/

variable {r : Reader}

theorem call_of_none (h : r.stream.next? = none) :
    r.call = (none, { r with stream := r.stream.skipped }) := by
  simp [call, read?, h]

theorem call_of_some {t : LocatedToken} {s : TokenStream} (h : r.stream.next? = some (t, s)) :
    r.call = (some (r.report (r.stream.readFrom r.limit .start).1),
      { r with stream := (r.stream.readFrom r.limit .start).2 }) := by
  simp [call, read?, h, TokenStream.readFrom_pushBack h]

theorem call_eq_none_iff : r.call.1 = none ↔ r.stream.next? = none := by
  cases h : r.stream.next? with
  | none => simp [call_of_none h]
  | some p => simp [call_of_some h]

/-- A call takes tokens from the front of the stream. -/
theorem call_gives {result : Except ReadError Datum} (h : r.call.1 = some result) :
    ∃ ts, ts ≠ [] ∧ r.stream.Gives ts r.call.2.stream ∧
      ∃ outcome, (ReaderState.start.feedAll r.limit ts).report = (outcome, []) ∧
        result = r.report outcome := by
  cases hnext : r.stream.next? with
  | none =>
      rw [call_of_none hnext] at h
      cases h
  | some p =>
      obtain ⟨t, s⟩ := p
      rw [call_of_some hnext] at h ⊢
      cases h
      obtain ⟨ts, hgives, hreport⟩ := r.stream.readFrom_gives r.limit .start
      refine ⟨ts, ?_, hgives, _, hreport, rfl⟩
      rintro rfl
      -- without a token the stream would be as it was, but reading has used it up
      have hlt : (r.stream.readFrom r.limit .start).2.size < r.stream.size :=
        TokenStream.size_readFrom_lt hnext
      generalize (r.stream.readFrom r.limit .start).2 = after at hgives hlt
      cases hgives
      exact Nat.lt_irrefl _ hlt

theorem call_keeps_pushed (hr : r.stream.pushed = none) : r.call.2.stream.pushed = none := by
  cases h : r.call.1 with
  | none =>
      rw [call_of_none (call_eq_none_iff.mp h)]
      exact hr
  | some result =>
      obtain ⟨ts, -, hgives, -⟩ := call_gives h
      exact hgives.pushed_eq hr

/-- A call that gives nothing leaves a reader that gives nothing. -/
theorem call_call_eq_none (h : r.call.1 = none) : r.call.2.call.1 = none := by
  rw [call_eq_none_iff] at h ⊢
  rw [call_of_none h]
  exact TokenStream.next?_skipped h

/-- No call changes the source or the limit. -/
theorem call_keeps_source (r : Reader) :
    r.call.2.source = r.source ∧ r.call.2.limit = r.limit := by
  cases h : r.stream.next? with
  | none => simp [call_of_none h]
  | some p => simp [call_of_some h]

theorem outcomes_of_call_none (h : r.call.1 = none) : r.outcomes = [] := by
  rw [call_eq_none_iff] at h
  have hread : r.read? = none := by simp [read?, h]
  rw [outcomes]
  split
  · rfl
  · rename_i hsome
    rw [hread] at hsome
    cases hsome

theorem outcomes_of_call_some {result : Except ReadError Datum} (h : r.call.1 = some result) :
    r.outcomes = result :: r.call.2.outcomes := by
  rw [outcomes]
  split
  · rename_i hread
    simp [call, hread] at h
  · rename_i hread
    simp only [call, hread, Option.some.injEq] at h ⊢
    rw [h]

theorem located_eq_nil_of_call (h : r.call.1 = none) : r.stream.located = [] :=
  TokenStream.located_of_none (call_eq_none_iff.mp h)

/-! ## Call after call -/

theorem afterCalls_succ (r : Reader) (k : Nat) : r.afterCalls (k + 1) = r.call.2.afterCalls k := by
  induction k with
  | zero => rfl
  | succ k ih => rw [afterCalls, ih, afterCalls]

theorem pushed_afterCalls (hr : r.stream.pushed = none) (k : Nat) :
    (r.afterCalls k).stream.pushed = none := by
  induction k with
  | zero => exact hr
  | succ k ih => exact call_keeps_pushed ih

/-- The calls give the outcomes of the text in order, and nothing after them. -/
theorem call_afterCalls (r : Reader) (k : Nat) : (r.afterCalls k).call.1 = r.outcomes[k]? := by
  induction k generalizing r with
  | zero =>
      cases h : r.call.1 with
      | none => rw [outcomes_of_call_none h]; exact h
      | some result => rw [outcomes_of_call_some h]; exact h
  | succ k ih =>
      rw [afterCalls_succ, ih]
      cases h : r.call.1 with
      | none =>
          rw [outcomes_of_call_none h, outcomes_of_call_none (call_call_eq_none h)]
          rfl
      | some result => rw [outcomes_of_call_some h, List.getElem?_cons_succ]

theorem afterCalls_keeps_source (r : Reader) (k : Nat) :
    (r.afterCalls k).source = r.source ∧ (r.afterCalls k).limit = r.limit := by
  induction k with
  | zero => exact ⟨rfl, rfl⟩
  | succ k ih =>
      obtain ⟨hsource, hlimit⟩ := (r.afterCalls k).call_keeps_source
      exact ⟨hsource.trans ih.1, hlimit.trans ih.2⟩

theorem report_congr {r r' : Reader} (h : r'.source = r.source) (outcome : ReadOutcome) :
    r'.report outcome = r.report outcome := by
  unfold report
  rw [h]

/-- The tokens that a call takes; they decide what it gives. -/
structure Takes (r : Reader) (ts : List LocatedToken) : Prop where
  located_eq : r.stream.located = ts ++ r.call.2.stream.located
  of_none : r.call.1 = none → ts = []
  of_some : ∀ result, r.call.1 = some result →
    ts ≠ [] ∧ r.stream.Gives ts r.call.2.stream ∧
      ∃ outcome, (ReaderState.start.feedAll r.limit ts).report = (outcome, []) ∧
        result = r.report outcome

theorem exists_takes (r : Reader) : ∃ ts, r.Takes ts := by
  cases h : r.call.1 with
  | none =>
      refine ⟨[], ?_, fun _ => rfl, ?_⟩
      · rw [located_eq_nil_of_call h, located_eq_nil_of_call (call_call_eq_none h)]
        rfl
      · intro result hresult
        cases h.symm.trans hresult
  | some result =>
      obtain ⟨ts, hne, hgives, houtcome⟩ := call_gives h
      refine ⟨ts, hgives.located_eq, ?_, ?_⟩
      · intro hnone
        cases h.symm.trans hnone
      · intro result' hresult
        cases h.symm.trans hresult
        exact ⟨hne, hgives, houtcome⟩

/-- What the calls took, and then what is left, are the tokens of the source. -/
theorem located_afterCalls {consumed : Nat → List LocatedToken}
    (hstep : ∀ k, (r.afterCalls k).stream.located =
      consumed k ++ (r.afterCalls (k + 1)).stream.located) (k : Nat) :
    (List.range k).flatMap consumed ++ (r.afterCalls k).stream.located = r.stream.located := by
  induction k with
  | zero => rfl
  | succ k ih =>
      rw [List.range_succ, List.flatMap_append, List.append_assoc, List.flatMap_singleton,
        ← hstep k, ih]

/-- How a reader that is called again and again, whatever the calls give, deals its tokens out. -/
structure DealsTokens (r : Reader) : Prop where
  /-- No token is held back before or after a call. -/
  pushed_eq : ∀ k, (r.afterCalls k).stream.pushed = none
  /-- Each call that gives something takes at least one token, and what it gives is decided by the
  tokens it took; one that gives nothing takes none. In order, and without loss or repetition, the
  calls take the tokens of the source, in the end all of them. -/
  consumed : ∃ consumed : Nat → List LocatedToken,
    (∀ k result, (r.afterCalls k).call.1 = some result →
      consumed k ≠ [] ∧ (r.afterCalls k).stream.Gives (consumed k) (r.afterCalls (k + 1)).stream ∧
      ∃ outcome, (ReaderState.start.feedAll r.limit (consumed k)).report = (outcome, []) ∧
        result = r.report outcome) ∧
    (∀ k, (r.afterCalls k).call.1 = none → consumed k = []) ∧
    (∀ k, (List.range k).flatMap consumed ++ (r.afterCalls k).stream.located = r.stream.located) ∧
    ∃ n, ∀ k ≥ n, (List.range k).flatMap consumed = r.stream.located
  /-- A call gives nothing exactly if only blanks and comments are left. -/
  none_iff : ∀ k, (r.afterCalls k).call.1 = none ↔ Text.BlankText (r.afterCalls k).stream.rest
  /-- After a call that gives nothing all give nothing. -/
  none_later : ∀ j k, j ≤ k → (r.afterCalls j).call.1 = none → (r.afterCalls k).call.1 = none
  /-- Some call gives nothing. -/
  ends : ∃ n, (r.afterCalls n).call.1 = none
  /-- The calls give the outcomes of the text. -/
  call_eq : ∀ k, (r.afterCalls k).call.1 = r.outcomes[k]?

/-- Reading a source again and again never loses, repeats or reorders a token, and ends. -/
theorem ofSource_dealsTokens (source : String) (limit : Option Nat) :
    (ofSource source limit).DealsTokens := by
  generalize hr : ofSource source limit = r
  have hpushed : ∀ k, (r.afterCalls k).stream.pushed = none := by
    subst r
    exact pushed_afterCalls rfl
  have hend : ∀ k ≥ r.outcomes.length, (r.afterCalls k).call.1 = none := by
    intro k hk
    rw [call_afterCalls, List.getElem?_eq_none_iff]
    exact hk
  refine ⟨hpushed, ?_, ?_, ?_, ⟨_, hend _ (Nat.le_refl _)⟩, r.call_afterCalls⟩
  · obtain ⟨consumed, htakes⟩ := Classical.axiomOfChoice fun k => (r.afterCalls k).exists_takes
    have hdealt : ∀ k, (List.range k).flatMap consumed ++ (r.afterCalls k).stream.located =
        r.stream.located := located_afterCalls fun k => (htakes k).located_eq
    refine ⟨consumed, ?_, fun k => (htakes k).of_none, hdealt, r.outcomes.length, ?_⟩
    · intro k result hresult
      obtain ⟨hne, hgives, outcome, hreport, rfl⟩ := (htakes k).of_some result hresult
      obtain ⟨hsource, hlimit⟩ := r.afterCalls_keeps_source k
      rw [hlimit] at hreport
      exact ⟨hne, hgives, outcome, hreport, report_congr hsource outcome⟩
    · intro k hk
      rw [← hdealt k, located_eq_nil_of_call (hend k hk), List.append_nil]
  · intro k
    rw [call_eq_none_iff]
    exact TokenStream.next?_eq_none_iff (hpushed k)
  · intro j k hjk hnone
    rw [call_afterCalls, List.getElem?_eq_none_iff] at hnone ⊢
    exact Nat.le_trans hnone hjk

end Reader

end Lisp
