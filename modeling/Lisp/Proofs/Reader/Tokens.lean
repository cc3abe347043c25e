import Lisp.Reader

/-! # Reading as a function of the tokens

`TokenStream.located` is the sequence of tokens that a stream has left. What a reader does with a
stream depends on this sequence alone: `ReaderState.feedAll` feeds it to the reader's state, and
`Reader.read?_eq` says that reading is just that. -/

namespace Lisp

namespace TokenStream

/-- The tokens that the stream has left, with their places. -/
def located (s : TokenStream) : List LocatedToken :=
  match _ : s.next? with
  | none => []
  | some (t, s') => t :: located s'
termination_by s.size
decreasing_by exact size_next?_lt ‹_›

def tokens (s : TokenStream) : List Token :=
  s.located.map LocatedToken.token

theorem located_of_none {s : TokenStream} (h : s.next? = none) : s.located = [] := by
  rw [located]
  split
  · rfl
  · rename_i h'
    rw [h] at h'
    cases h'

theorem located_of_some {s s' : TokenStream} {t : LocatedToken} (h : s.next? = some (t, s')) :
    s.located = t :: s'.located := by
  rw [located]
  split
  · rename_i h'
    rw [h] at h'
    cases h'
  · rename_i h'
    rw [h] at h'
    cases h'
    rfl

/-- A token that was given back comes again. -/
theorem next?_pushBack {s s' : TokenStream} {t : LocatedToken} (h : s.next? = some (t, s')) :
    (s'.pushBack t).next? = some (t, s') := by
  have hpushed := pushed_of_next? h
  cases s'
  cases hpushed
  rfl

theorem located_pushBack {s s' : TokenStream} {t : LocatedToken} (h : s.next? = some (t, s')) :
    (s'.pushBack t).located = s.located := by
  rw [located_of_some h, located_of_some (next?_pushBack h)]

theorem readFrom_of_none {limit : Option Nat} {s : TokenStream} {state : ReaderState}
    (h : s.next? = none) : s.readFrom limit state = (.fault state.endFault none, s) := by
  rw [readFrom]
  split
  · rfl
  · rename_i h'
    rw [h] at h'
    cases h'

theorem readFrom_of_some {limit : Option Nat} {s s' : TokenStream} {state : ReaderState}
    {t : LocatedToken} (h : s.next? = some (t, s')) :
    s.readFrom limit state =
      match state.feed limit t.token with
      | .more state' => s'.readFrom limit state'
      | .done d => (.datum d, s')
      | .fail f => (.fault f (some t), s') := by
  rw [readFrom]
  split
  · rename_i h'
    rw [h] at h'
    cases h'
  · rename_i h'
    rw [h] at h'
    cases h'
    rfl

theorem readFrom_pushBack {limit : Option Nat} {s s' : TokenStream} {state : ReaderState}
    {t : LocatedToken} (h : s.next? = some (t, s')) :
    (s'.pushBack t).readFrom limit state = s.readFrom limit state := by
  rw [readFrom_of_some h, readFrom_of_some (next?_pushBack h)]

end TokenStream

/-! ## Feeding a sequence of tokens -/

/-- What a sequence of tokens leads to: it ends too early, completes an expression, or holds a
token that is refused. -/
inductive FeedOutcome
  | pending (state : ReaderState)
  | done (d : Datum) (rest : List LocatedToken)
  | refused (fault : ReadFault) (t : LocatedToken) (rest : List LocatedToken)

namespace ReaderState

/-- Feeds tokens until the expression is complete or a token is refused. -/
def feedAll (limit : Option Nat) (state : ReaderState) : List LocatedToken → FeedOutcome
  | [] => .pending state
  | t :: ts =>
    match state.feed limit t.token with
    | .more state' => state'.feedAll limit ts
    | .done d => .done d ts
    | .fail f => .refused f t ts

variable {limit : Option Nat} {state state' : ReaderState}

theorem feedAll_of_more {t : LocatedToken} (h : state.feed limit t.token = .more state')
    (ts : List LocatedToken) : state.feedAll limit (t :: ts) = state'.feedAll limit ts := by
  rw [feedAll, h]

theorem feedAll_of_done {t : LocatedToken} {d : Datum} (h : state.feed limit t.token = .done d)
    (ts : List LocatedToken) : state.feedAll limit (t :: ts) = .done d ts := by
  rw [feedAll, h]

theorem feedAll_of_fail {t : LocatedToken} {f : ReadFault} (h : state.feed limit t.token = .fail f)
    (ts : List LocatedToken) : state.feedAll limit (t :: ts) = .refused f t ts := by
  rw [feedAll, h]

/-- Further tokens only matter if the expression was not finished. -/
theorem feedAll_append (ts us : List LocatedToken) :
    state.feedAll limit (ts ++ us) =
      match state.feedAll limit ts with
      | .pending state' => state'.feedAll limit us
      | .done d rest => .done d (rest ++ us)
      | .refused f t rest => .refused f t (rest ++ us) := by
  induction ts generalizing state with
  | nil => rfl
  | cons t ts ih =>
      rw [List.cons_append]
      cases h : state.feed limit t.token with
      | more state' => rw [feedAll_of_more h, feedAll_of_more h, ih]
      | done d => rw [feedAll_of_done h, feedAll_of_done h]
      | fail f => rw [feedAll_of_fail h, feedAll_of_fail h]

end ReaderState

/-- The outcome of reading that a feeding amounts to, and the tokens left after it. -/
def FeedOutcome.report : FeedOutcome → ReadOutcome × List LocatedToken
  | pending state => (.fault state.endFault none, [])
  | done d rest => (.datum d, rest)
  | refused f t rest => (.fault f (some t), rest)

theorem ReaderState.report_feedAll_suffix {limit : Option Nat} {state : ReaderState}
    (ts : List LocatedToken) : (state.feedAll limit ts).report.2 <:+ ts := by
  induction ts generalizing state with
  | nil => exact List.nil_suffix
  | cons t ts ih =>
      cases h : state.feed limit t.token with
      | more state' =>
          rw [feedAll_of_more h]
          exact ih.trans (List.suffix_cons t ts)
      | done d =>
          rw [feedAll_of_done h]
          exact List.suffix_cons t ts
      | fail f =>
          rw [feedAll_of_fail h]
          exact List.suffix_cons t ts

theorem TokenStream.readFrom_eq (limit : Option Nat) (s : TokenStream) (state : ReaderState) :
    ((s.readFrom limit state).1, (s.readFrom limit state).2.located) =
      (state.feedAll limit s.located).report := by
  fun_induction TokenStream.readFrom limit s state with
  | case1 s state h =>
      rw [located_of_none h]
      rfl
  | case2 s state t s' h state' hfeed ih =>
      rw [located_of_some h, ReaderState.feedAll_of_more hfeed, ih]
  | case3 s state t s' h d hfeed =>
      rw [located_of_some h, ReaderState.feedAll_of_done hfeed]
      rfl
  | case4 s state t s' h f hfeed =>
      rw [located_of_some h, ReaderState.feedAll_of_fail hfeed]
      rfl

namespace Reader

/-- There is nothing to read exactly if no token is left. -/
theorem read?_eq_none_iff (r : Reader) : r.read? = none ↔ r.stream.located = [] := by
  rw [read?]
  cases h : r.stream.next? with
  | none => simp [TokenStream.located_of_none h]
  | some p => simp [TokenStream.located_of_some h]

/-- Reading an expression feeds the tokens of the stream to the state at its start. -/
theorem read?_eq (r : Reader) (hne : r.stream.located ≠ []) :
    ∃ r', r.read? =
        some (r.report (ReaderState.start.feedAll r.limit r.stream.located).report.1, r') ∧
      r'.source = r.source ∧ r'.limit = r.limit ∧
      r'.stream.located = (ReaderState.start.feedAll r.limit r.stream.located).report.2 := by
  cases h : r.stream.next? with
  | none => exact absurd (TokenStream.located_of_none h) hne
  | some p =>
      obtain ⟨t, s⟩ := p
      have hread := TokenStream.readFrom_eq r.limit (s.pushBack t) .start
      rw [TokenStream.located_pushBack h] at hread
      refine ⟨{ r with stream := ((s.pushBack t).readFrom r.limit .start).2 }, ?_, rfl, rfl, ?_⟩
      · rw [read?, h, ← hread]
      · rw [← hread]

theorem located_ne_nil {r : Reader} {p : Except ReadError Datum × Reader}
    (h : r.read? = some p) : r.stream.located ≠ [] := by
  intro hnil
  rw [(r.read?_eq_none_iff).mpr hnil] at h
  cases h

section Outcome

variable {r : Reader}

theorem read?_of_done {d : Datum} {rest : List LocatedToken} (hne : r.stream.located ≠ [])
    (h : ReaderState.start.feedAll r.limit r.stream.located = .done d rest) :
    ∃ r', r.read? = some (.ok d, r') ∧ r'.stream.located = rest := by
  obtain ⟨r', hread, -, -, hrest⟩ := r.read?_eq hne
  rw [h] at hread hrest
  exact ⟨r', hread, hrest⟩

theorem read?_of_pending {state : ReaderState} (hne : r.stream.located ≠ [])
    (h : ReaderState.start.feedAll r.limit r.stream.located = .pending state) :
    ∃ e r', r.read? = some (.error e, r') ∧ e.kind = state.endFault.kind := by
  obtain ⟨r', hread, -⟩ := r.read?_eq hne
  rw [h] at hread
  exact ⟨_, r', hread, rfl⟩

theorem read?_of_refused {f : ReadFault} {t : LocatedToken} {rest : List LocatedToken}
    (hne : r.stream.located ≠ [])
    (h : ReaderState.start.feedAll r.limit r.stream.located = .refused f t rest) :
    ∃ e r', r.read? = some (.error e, r') ∧ e.kind = f.kind := by
  obtain ⟨r', hread, -⟩ := r.read?_eq hne
  rw [h] at hread
  exact ⟨_, r', hread, rfl⟩

/-- A datum that was read is what the tokens complete. -/
theorem feedAll_of_read?_ok {r' : Reader} {d : Datum} (h : r.read? = some (.ok d, r')) :
    ReaderState.start.feedAll r.limit r.stream.located = .done d r'.stream.located := by
  have hne := located_ne_nil h
  cases hout : ReaderState.start.feedAll r.limit r.stream.located with
  | pending state =>
      obtain ⟨e, r'', hread, -⟩ := read?_of_pending hne hout
      cases h.symm.trans hread
  | refused f t rest =>
      obtain ⟨e, r'', hread, -⟩ := read?_of_refused hne hout
      cases h.symm.trans hread
  | done d' rest =>
      obtain ⟨r'', hread, hrest⟩ := read?_of_done hne hout
      cases h.symm.trans hread
      rw [hrest]

/-- Whatever reading gives, it takes its tokens from the front. -/
theorem located_suffix {p : Except ReadError Datum × Reader} (h : r.read? = some p) :
    p.2.stream.located <:+ r.stream.located := by
  obtain ⟨r', hread, -, -, hrest⟩ := r.read?_eq (located_ne_nil h)
  cases h.symm.trans hread
  rw [hrest]
  exact ReaderState.report_feedAll_suffix _

end Outcome

end Reader

end Lisp
