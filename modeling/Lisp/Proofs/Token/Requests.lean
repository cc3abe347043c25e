import Lisp.Proofs.Token.Layout
import Mathlib.Data.List.Induction

/-! # Streams in use

A stream is asked for its next token, again and again, and may be given back the token that it has
just given. Over every history of such requests it takes its source apart without loss: the tokens
come in the order in which they lie in the text, a token given back comes once more, and the answers
end only where the tokens do. -/

namespace Lisp

/-- What is asked of a stream: its next token, or to take back the token that it has just given. -/
inductive TokenRequest
  | next
  | giveBack

/-- What a row of tokens has to answer: the tokens still ahead, and the last answer as long as it
can be given back. -/
structure TokenRow where
  last : Option LocatedToken
  ahead : List LocatedToken

namespace TokenRow

/-- The token at the front is answered and left behind; one given back stands at the front again. -/
def respond (row : TokenRow) : TokenRequest → TokenRow
  | .next => ⟨row.ahead.head?, row.ahead.tail⟩
  | .giveBack => ⟨none, row.last.toList ++ row.ahead⟩

def afterRequests (ts : List LocatedToken) (requests : List TokenRequest) : TokenRow :=
  requests.foldl respond ⟨none, ts⟩

theorem afterRequests_concat (ts : List LocatedToken) (requests : List TokenRequest)
    (q : TokenRequest) :
    afterRequests ts (requests ++ [q]) = (afterRequests ts requests).respond q := by
  rw [afterRequests, List.foldl_append, List.foldl_cons, List.foldl_nil, afterRequests]

theorem ahead_afterRequests_next (ts : List LocatedToken) (n : Nat) :
    (afterRequests ts (List.replicate n .next)).ahead = ts.drop n := by
  induction n with
  | zero => rfl
  | succ n ih => rw [List.replicate_succ', afterRequests_concat, respond, ih, List.tail_drop]

end TokenRow

namespace TokenStream

theorem located_pushBack_of_none {s : TokenStream} (hs : s.pushed = none) (t : LocatedToken) :
    (s.pushBack t).located = t :: s.located := by
  obtain ⟨rest, offset, pushed⟩ := s
  obtain rfl : pushed = none := hs
  exact located_of_some rfl

/-- A stream in use, and its last answer to a request for a token. -/
structure Use where
  stream : TokenStream
  last : Option LocatedToken

namespace Use

/-- Asking at the end leaves the blanks behind; there is then nothing to give back. -/
def respond (u : Use) : TokenRequest → Use
  | .next =>
    match u.stream.next? with
    | some (t, s) => ⟨s, some t⟩
    | none => ⟨u.stream.skipped, none⟩
  | .giveBack =>
    match u.last with
    | some t => ⟨u.stream.pushBack t, some t⟩
    | none => u

def answer (u : Use) : Option LocatedToken :=
  (u.respond .next).last

def afterRequests (source : String) (requests : List TokenRequest) : Use :=
  requests.foldl respond ⟨ofSource source, none⟩

/-! ## One request -/

variable {source : List Char} {u : Use} {row : TokenRow} {t : LocatedToken} {s : TokenStream}
  {ts : List LocatedToken}

theorem respond_next_of_some (h : u.stream.next? = some (t, s)) :
    u.respond .next = ⟨s, some t⟩ := by
  simp [respond, h]

theorem respond_next_of_none (h : u.stream.next? = none) :
    u.respond .next = ⟨u.stream.skipped, none⟩ := by
  simp [respond, h]

/-- No token is held back after one was asked for. -/
theorem pushed_respond_next (u : Use) : (u.respond .next).stream.pushed = none := by
  cases h : u.stream.next? with
  | none =>
      rw [respond_next_of_none h]
      exact pushed_of_next?_none (next?_skipped h)
  | some p =>
      rw [respond_next_of_some h]
      exact pushed_of_next? h

theorem respond_giveBack_of_some (h : u.last = some t) :
    u.respond .giveBack = ⟨u.stream.pushBack t, some t⟩ := by
  simp [respond, h]

theorem respond_giveBack_of_held (h : u.stream.pushed = u.last) : u.respond .giveBack = u := by
  obtain ⟨⟨rest, offset, pushed⟩, last⟩ := u
  obtain rfl : pushed = last := h
  cases pushed with
  | none => rfl
  | some t => rfl

theorem answer_eq_head? (u : Use) : u.answer = u.stream.located.head? := by
  cases h : u.stream.next? with
  | none => rw [answer, respond_next_of_none h, located_of_none h, List.head?_nil]
  | some p => rw [answer, respond_next_of_some h, located_of_some h, List.head?_cons]

theorem answer_eq_none_iff (u : Use) :
    u.answer = none ↔ u.stream.pushed = none ∧ Text.BlankText u.stream.rest := by
  constructor
  · intro h
    cases hnext : u.stream.next? with
    | none =>
        have hpushed := pushed_of_next?_none hnext
        exact ⟨hpushed, (next?_eq_none_iff hpushed).mp hnext⟩
    | some p =>
        rw [answer, respond_next_of_some hnext] at h
        cases h
  · rintro ⟨hpushed, htext⟩
    rw [answer, respond_next_of_none ((next?_eq_none_iff hpushed).mpr htext)]

/-- A stream in use stands in its source right behind its last answer, and it is about to answer as
the row is. -/
structure Follows (source : List Char) (ts : List LocatedToken) (u : Use) (row : TokenRow) :
    Prop where
  stands : StandsIn source { u.stream with pushed := none }
  last_stands : ∀ t, u.last = some t → ∃ before, t.StandsIn source before u.stream
  located_eq : u.stream.located = row.ahead
  /-- The last answer can be given back, or it is held back already. -/
  held : (u.stream.pushed = none ∧ u.last = row.last) ∨ (u.stream.pushed = u.last ∧ row.last = none)
  splits : ∃ behind, ts = behind ++ (row.last.toList ++ row.ahead)

namespace Follows

theorem stands_next (h : u.Follows source ts row) (hnext : u.stream.next? = some (t, s)) :
    StandsIn source s ∧ ∃ before, t.StandsIn source before s := by
  obtain ⟨⟨rest, offset, pushed⟩, last⟩ := u
  cases pushed with
  | none => exact h.stands.next hnext
  | some t' =>
      -- the token comes once more, and the stream stood behind it all the time
      cases hnext
      refine ⟨h.stands, ?_⟩
      rcases h.held with ⟨hpushed, -⟩ | ⟨hpushed, -⟩
      · cases hpushed
      · obtain ⟨before, hbefore⟩ := h.last_stands t hpushed.symm
        exact ⟨before, hbefore.source_eq, hbefore.offset_eq⟩

theorem next (h : u.Follows source ts row) :
    (u.respond .next).Follows source ts (row.respond .next) := by
  obtain ⟨behind, hsplits⟩ := h.splits
  have hlocated := h.located_eq
  cases hnext : u.stream.next? with
  | none =>
      have hpushed := u.pushed_respond_next
      rw [located_of_none hnext] at hlocated
      rw [respond_next_of_none hnext] at hpushed ⊢
      rw [TokenRow.respond, ← hlocated]
      exact {
        stands := h.stands.skipped
        last_stands := nofun
        located_eq := located_of_none (next?_skipped hnext)
        held := .inl ⟨hpushed, rfl⟩
        splits := ⟨ts, by simp⟩ }
  | some p =>
      obtain ⟨t, s⟩ := p
      obtain ⟨hstands, hbefore⟩ := h.stands_next hnext
      rw [located_of_some hnext] at hlocated
      rw [← hlocated] at hsplits
      rw [respond_next_of_some hnext, TokenRow.respond, ← hlocated]
      exact {
        stands := ⟨rfl, hstands.splits⟩
        last_stands := fun t' ht' => by
          cases ht'
          exact hbefore
        located_eq := rfl
        held := .inl ⟨pushed_of_next? hnext, rfl⟩
        splits := ⟨behind ++ row.last.toList, by simp [hsplits]⟩ }

/-- To give back what is held back already changes nothing. -/
theorem giveBack_of_held (h : u.Follows source ts row) (hpushed : u.stream.pushed = u.last)
    (hrow : row.last = none) : (u.respond .giveBack).Follows source ts (row.respond .giveBack) := by
  obtain ⟨hstands, hlast, hlocated, -, hsplits⟩ := h
  rw [respond_giveBack_of_held hpushed, TokenRow.respond]
  rw [hrow] at hsplits ⊢
  exact ⟨hstands, hlast, hlocated, .inr ⟨hpushed, rfl⟩, hsplits⟩

theorem giveBack (h : u.Follows source ts row) :
    (u.respond .giveBack).Follows source ts (row.respond .giveBack) := by
  rcases h.held with ⟨hpushed, hrow⟩ | ⟨hpushed, hrow⟩
  · cases hlast : u.last with
    | none => exact h.giveBack_of_held (hpushed.trans hlast.symm) (hrow.symm.trans hlast)
    | some t =>
        obtain ⟨before, hin⟩ := h.last_stands t hlast
        have hsplits := h.splits
        rw [← hrow, hlast] at hsplits
        rw [respond_giveBack_of_some hlast, TokenRow.respond, ← hrow, hlast]
        exact {
          stands := h.stands
          last_stands := fun t' ht' => by
            cases ht'
            exact ⟨before, hin.source_eq, hin.offset_eq⟩
          located_eq := by
            rw [located_pushBack_of_none hpushed t, h.located_eq]
            rfl
          held := .inr ⟨rfl, rfl⟩
          splits := hsplits }
  · exact h.giveBack_of_held hpushed hrow

end Follows

/-! ## A history of requests -/

theorem afterRequests_concat (source : String) (requests : List TokenRequest) (q : TokenRequest) :
    afterRequests source (requests ++ [q]) = (afterRequests source requests).respond q := by
  rw [afterRequests, List.foldl_append, List.foldl_cons, List.foldl_nil, afterRequests]

theorem follows_afterRequests (source : String) (requests : List TokenRequest) :
    (afterRequests source requests).Follows source.toList (ofSource source).located
      (TokenRow.afterRequests (ofSource source).located requests) := by
  induction requests using List.reverseRecOn with
  | nil => exact ⟨ofSource_standsIn source, nofun, rfl, .inl ⟨rfl, rfl⟩, [], rfl⟩
  | append_singleton requests q ih =>
      rw [afterRequests_concat, TokenRow.afterRequests_concat]
      cases q with
      | next => exact ih.next
      | giveBack => exact ih.giveBack

/-- A token is held back only if giving it back was the last request. -/
theorem pushed_afterRequests {source : String} {requests : List TokenRequest}
    (h : requests.getLast? ≠ some .giveBack) :
    (afterRequests source requests).stream.pushed = none := by
  cases requests using List.reverseRecOn with
  | nil => rfl
  | append_singleton requests q =>
      cases q with
      | giveBack => simp at h
      | next =>
          rw [afterRequests_concat]
          exact pushed_respond_next _

/-- A token that was given and not given back since is the last answer of the row. -/
theorem Follows.row_last (h : u.Follows source ts row) (hlast : u.last = some t)
    (hpushed : u.stream.pushed = none) : row.last = some t := by
  rcases h.held with ⟨-, hrow⟩ | ⟨hheld, -⟩
  · rw [← hrow, hlast]
  · rw [hpushed, hlast] at hheld
    cases hheld

end Use

end TokenStream

/-! ## Nothing is lost -/

/-- A token that stands in a source begins where a character does. -/
theorem LocatedToken.StandsIn.isValid {source : String} {before : List Char} {t : LocatedToken}
    {s : TokenStream} (h : t.StandsIn source.toList before s) :
    (⟨t.offset⟩ : String.Pos.Raw).IsValid source := by
  rw [String.Pos.Raw.isValid_iff_exists_append]
  refine ⟨String.ofList before, String.ofList (t.token.text.toList ++ s.rest), ?_, ?_⟩
  · rw [← String.ofList_append, ← List.append_assoc, ← h.source_eq, String.ofList_toList]
  · rw [h.offset_eq]
    rfl

namespace TokenStream

open Use (afterRequests)

/-- How a stream takes a source apart into tokens, whatever is asked of it. -/
structure TakesApart (source : String) (ts : List LocatedToken) : Prop where
  /-- The source is the tokens and the gaps around them, -/
  laidOut : LaidOut 0 source.toList ts
  /-- and this in no other way. -/
  only : ∀ ts', LaidOut 0 source.toList ts' → ts' = ts
  /-- Each token begins behind the one before. -/
  increasing : ts.Pairwise fun t t' => t.offset < t'.offset
  /-- Asked for tokens only, the stream gives them one after the other and then no more. -/
  in_turn : ∀ n, (afterRequests source (List.replicate n .next)).answer = ts[n]?
  /-- After every history of requests it answers as the row of the tokens does. -/
  answer_eq : ∀ requests,
    (afterRequests source requests).answer = (TokenRow.afterRequests ts requests).ahead.head?
  /-- A token given back is the next answer, with the offset that it had. -/
  again : ∀ requests t, (afterRequests source requests).last = some t →
    (afterRequests source (requests ++ [.giveBack])).answer = some t
  /-- If it is not given back, the next answer begins behind it. -/
  later : ∀ requests t t', requests.getLast? ≠ some .giveBack →
    (afterRequests source requests).last = some t →
    (afterRequests source requests).answer = some t' → t.offset < t'.offset
  /-- The last answer stands in the source at its offset, where a character begins, and what the
  stream has left follows it. -/
  stands : ∀ requests t, (afterRequests source requests).last = some t →
    (⟨t.offset⟩ : String.Pos.Raw).IsValid source ∧
      ∃ before, t.StandsIn source.toList before (afterRequests source requests).stream
  /-- There is no answer exactly if no token is held back and only blanks and comments are left. -/
  none_iff : ∀ requests, (afterRequests source requests).answer = none ↔
    (afterRequests source requests).stream.pushed = none ∧
      Text.BlankText (afterRequests source requests).stream.rest

/-- Every source is taken apart without loss. -/
theorem tokenizing_loses_nothing (source : String) :
    TakesApart source (ofSource source).located := by
  have hlaidOut : LaidOut 0 source.toList (ofSource source).located :=
    LaidOut.iff_located.mpr rfl
  have hfollows := Use.follows_afterRequests source
  have hanswer : ∀ requests, (afterRequests source requests).answer =
      (TokenRow.afterRequests (ofSource source).located requests).ahead.head? := by
    intro requests
    rw [Use.answer_eq_head?, (hfollows requests).located_eq]
  refine ⟨hlaidOut, ?_, hlaidOut.increasing, ?_, hanswer, ?_, ?_, ?_, ?_⟩
  · intro ts' h
    exact (LaidOut.iff_located.mp h).symm
  · intro n
    rw [hanswer, TokenRow.ahead_afterRequests_next, List.head?_drop]
  · intro requests t hlast
    rw [Use.afterRequests_concat, Use.respond_giveBack_of_some hlast]
    rfl
  · intro requests t t' hrequests hlast hnext
    have hrow := (hfollows requests).row_last hlast (Use.pushed_afterRequests hrequests)
    rw [hanswer] at hnext
    obtain ⟨behind, hsplits⟩ := (hfollows requests).splits
    obtain ⟨ahead, hahead⟩ := List.head?_eq_some_iff.mp hnext
    have hincreasing := hlaidOut.increasing
    -- the two stand side by side in the row
    rw [hsplits, hrow, hahead] at hincreasing
    exact List.rel_of_pairwise_cons (List.pairwise_append.mp hincreasing).2.1 List.mem_cons_self
  · intro requests t hlast
    obtain ⟨before, hin⟩ := (hfollows requests).last_stands t hlast
    exact ⟨hin.isValid, before, hin⟩
  · intro requests
    exact Use.answer_eq_none_iff _

example :
    (afterRequests "é .5;x\n" [.next, .giveBack, .giveBack]).answer = some ⟨.atom "é", 0⟩ ∧
      (afterRequests "é .5;x\n" [.next, .giveBack, .next]).answer = some ⟨.dot, 3⟩ ∧
      (afterRequests "é .5;x\n" [.next, .next, .next]).last = some ⟨.atom "5", 4⟩ ∧
      (afterRequests "é .5;x\n" [.next, .next, .next]).answer = none := by
  decide +kernel

end TokenStream

end Lisp
