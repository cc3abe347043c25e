import Lisp.Proofs.Reader.Progress
import Lisp.Proofs.Text.Excerpt

/-! # Where an error points

A stream keeps the byte offset of what is left of its text, so each token stands in the text at its
own offset. The error of a failed call names the token it took last, and its excerpt shows the text
around that token; an error that names none shows the end of the text. -/

namespace Lisp

open Text (byteCount)
open Text.Excerpt (Shows)

/-! ## Streams in their text -/

/-- The token stands in the text right behind `before`, which its offset measures, and what the
stream has left follows it. -/
structure LocatedToken.StandsIn (t : LocatedToken) (source before : List Char)
    (s : TokenStream) : Prop where
  source_eq : source = before ++ t.token.text.toList ++ s.rest
  offset_eq : t.offset = byteCount before

namespace TokenStream

variable {source : List Char} {s s' : TokenStream} {t : LocatedToken} {ts : List LocatedToken}

/-- No token is held back, the text ends with what the stream has left, and the offset measures what
stands before it. -/
structure StandsIn (source : List Char) (s : TokenStream) : Prop where
  pushed_eq : s.pushed = none
  splits : ∃ done, source = done ++ s.rest ∧ s.offset = byteCount done

theorem ofSource_standsIn (source : String) : StandsIn source.toList (ofSource source) :=
  ⟨rfl, [], rfl, rfl⟩

theorem skipBlanks_splits (inComment : Bool) (offset : Nat) (cs : List Char) :
    ∃ blanks, cs = blanks ++ (skipBlanks inComment offset cs).2 ∧
      (skipBlanks inComment offset cs).1 = offset + byteCount blanks := by
  induction cs generalizing inComment offset with
  | nil => exact ⟨[], rfl, rfl⟩
  | cons c cs ih =>
      have hskip (b : Bool) : ∃ blanks,
          c :: cs = blanks ++ (skipBlanks b (offset + c.utf8Size) cs).2 ∧
            (skipBlanks b (offset + c.utf8Size) cs).1 = offset + byteCount blanks := by
        obtain ⟨blanks, hsplit, hoffset⟩ := ih b (offset + c.utf8Size)
        refine ⟨c :: blanks, by rw [List.cons_append, ← hsplit], ?_⟩
        rw [hoffset, Text.byteCount_cons, Nat.add_assoc]
      simp only [skipBlanks]
      split
      · exact hskip _
      · split
        · exact hskip _
        · split
          · exact hskip _
          · exact ⟨[], rfl, rfl⟩

theorem scan_splits (c : Char) (cs : List Char) :
    c :: cs = (scan c cs).1.text.toList ++ (scan c cs).2 := by
  unfold scan
  split
  · simp [Token.text]
  · simp [Token.text]
  · simp [Token.text]
  · simp [Token.text]
  · rw [Token.text, String.toList_ofList, List.cons_append, List.takeWhile_append_dropWhile]

theorem StandsIn.skipped (h : StandsIn source s) : StandsIn source s.skipped := by
  obtain ⟨hpushed, done, hsource, hoffset⟩ := h
  obtain ⟨blanks, hsplit, hskip⟩ := skipBlanks_splits false s.offset s.rest
  refine ⟨hpushed, done ++ blanks, ?_, ?_⟩
  · rw [List.append_assoc, TokenStream.skipped, ← hsplit, hsource]
  · rw [TokenStream.skipped, hskip, hoffset, Text.byteCount_append]

/-- The next token of a stream stands in its text, and so does the stream after it. -/
theorem StandsIn.next (h : StandsIn source s) (hnext : s.next? = some (t, s')) :
    StandsIn source s' ∧ ∃ before, t.StandsIn source before s' := by
  obtain ⟨hpushed, done, hsource, hoffset⟩ := h.skipped
  simp only [TokenStream.skipped] at hsource hoffset
  rw [next?, h.pushed_eq] at hnext
  simp only at hnext
  split at hnext
  · cases hnext
  · rename_i offset c cs hskip
    rw [hskip] at hsource hoffset
    simp only [Option.some.injEq, Prod.mk.injEq] at hnext
    obtain ⟨rfl, rfl⟩ := hnext
    have hsplit : source = done ++ (scan c cs).1.text.toList ++ (scan c cs).2 := by
      rw [List.append_assoc, ← scan_splits, hsource]
    refine ⟨⟨rfl, _, hsplit, ?_⟩, done, hsplit, hoffset⟩
    rw [Text.byteCount_append, Text.byteCount_toList, ← hoffset]

theorem StandsIn.gives (h : StandsIn source s) (hgives : Gives s ts s') : StandsIn source s' := by
  induction hgives with
  | nil => exact h
  | cons hnext _ ih => exact ih (h.next hnext).1

theorem Gives.last (h : Gives s (ts ++ [t]) s') : ∃ m, Gives s ts m ∧ m.next? = some (t, s') := by
  induction ts generalizing s with
  | nil =>
      cases h with
      | cons hnext hrest =>
          cases hrest
          exact ⟨s, .nil s, hnext⟩
  | cons u us ih =>
      cases h with
      | cons hnext hrest =>
          obtain ⟨m, hgives, hlast⟩ := ih hrest
          exact ⟨m, .cons hnext hgives, hlast⟩

/-- The last token taken stands in the text right before what is left. -/
theorem StandsIn.last (h : StandsIn source s) (hgives : Gives s (ts ++ [t]) s') :
    ∃ before, t.StandsIn source before s' := by
  obtain ⟨m, hm, hnext⟩ := hgives.last
  exact ((h.gives hm).next hnext).2

end TokenStream

theorem ReaderState.feedAll_refused {limit : Option Nat} {state : ReaderState}
    {ts rest : List LocatedToken} {f : ReadFault} {t : LocatedToken}
    (h : state.feedAll limit ts = .refused f t rest) : ∃ taken, ts = taken ++ t :: rest := by
  induction ts generalizing state with
  | nil => cases h
  | cons u us ih =>
      cases hfeed : state.feed limit u.token with
      | more state' =>
          rw [feedAll_of_more hfeed] at h
          obtain ⟨taken, rfl⟩ := ih h
          exact ⟨u :: taken, rfl⟩
      | done d =>
          rw [feedAll_of_done hfeed] at h
          cases h
      | fail f' =>
          rw [feedAll_of_fail hfeed] at h
          cases h
          exact ⟨[], rfl⟩

/-! ## The place of a failure -/

namespace Reader

variable {source : List Char} {r : Reader}

theorem call_standsIn (h : r.stream.StandsIn source) : r.call.2.stream.StandsIn source := by
  cases hcall : r.call.1 with
  | none =>
      rw [call_of_none (call_eq_none_iff.mp hcall)]
      exact h.skipped
  | some result =>
      obtain ⟨ts, -, hgives, -⟩ := call_gives hcall
      exact h.gives hgives

theorem afterCalls_standsIn (source : String) (limit : Option Nat) (n : Nat) :
    ((ofSource source limit).afterCalls n).stream.StandsIn source.toList := by
  induction n with
  | zero => exact TokenStream.ofSource_standsIn source
  | succ n ih => exact call_standsIn ih

/-- The character of the text that a failed call is about: the first of the last token that the call
took, if the report names a token, and the end of the text if not. -/
inductive FailsAt (r : Reader) (source : List Char) : Option String → Nat → Prop
  | token {ts : List LocatedToken} {t : LocatedToken} {before : List Char} :
      r.stream.Gives (ts ++ [t]) r.call.2.stream → t.StandsIn source before r.call.2.stream →
      FailsAt r source (some t.token.text) before.length
  | ending : FailsAt r source none source.length

/-- A failed call reports the place of its failure. -/
theorem call_fails {e : ReadError} (hstands : r.stream.StandsIn r.source.toList)
    (h : r.call.1 = some (.error e)) :
    ∃ k context, r.FailsAt r.source.toList e.found k ∧ e.context = some context ∧
      Shows r.source.toList k context := by
  obtain ⟨ts, -, hgives, outcome, hreport, herror⟩ := call_gives h
  cases hfeed : ReaderState.start.feedAll r.limit ts with
  | pending state =>
      rw [hfeed] at hreport
      cases hreport
      cases herror
      have hplace := Text.isPlace_append r.source.toList []
      rw [List.append_nil, Text.byteCount_toList] at hplace
      exact ⟨_, _, .ending, rfl, Text.shows_excerpt r.source hplace⟩
  | done d rest =>
      rw [hfeed] at hreport
      cases hreport
      cases herror
  | refused f t rest =>
      rw [hfeed] at hreport
      cases hreport
      cases herror
      -- no token taken is left over, so the refused one came last
      obtain ⟨taken, rfl⟩ := ReaderState.feedAll_refused hfeed
      obtain ⟨before, hin⟩ := hstands.last hgives
      have hplace := Text.isPlace_append before (t.token.text.toList ++ r.call.2.stream.rest)
      rw [← List.append_assoc, ← hin.source_eq, ← hin.offset_eq] at hplace
      exact ⟨_, _, .token hgives hin, rfl, Text.shows_excerpt r.source hplace⟩

end Reader

/-- Whatever was read before, a failed call reports the place of its failure with the text around
it, and a report made at any byte offset, inside a character or behind the text, shows the text
around the character meant. -/
theorem errors_show_their_place :
    (∀ (source : String) (limit : Option Nat) (n : Nat) (e : ReadError),
      ((Reader.ofSource source limit).afterCalls n).call.1 = some (.error e) →
      ∃ k context, ((Reader.ofSource source limit).afterCalls n).FailsAt source.toList e.found k ∧
        e.context = some context ∧ Shows source.toList k context) ∧
    (∀ (kind : ReadErrorKind) (message source : String) (offset : Nat) (found : Option String),
      ∃ k context, Text.IsPlace source.toList offset k ∧
        (ReadError.located kind message source offset found).context = some context ∧
        Shows source.toList k context) := by
  constructor
  · intro source limit n e hcall
    have hsource := ((Reader.ofSource source limit).afterCalls_keeps_source n).1
    have hfails := Reader.call_fails (by
      rw [hsource]
      exact Reader.afterCalls_standsIn source limit n) hcall
    rwa [hsource] at hfails
  · intro kind message source offset found
    have hplace := Text.isPlace_charsBefore source.toList offset
    exact ⟨_, _, hplace, rfl, Text.shows_excerpt source hplace⟩

theorem errors_show_their_place_accented :
    let source := "été été été été été été (a . b\n c)"
    let r := (Reader.ofSource source none).afterCalls 6
    let e : ReadError := ⟨.invalid, "Expected closing parenthesis after dotted pair",
      some "[...]été été été (a . b\\n c)", some "c"⟩
    r.call.1 = some (.error e) ∧
      ∃ k context, r.FailsAt source.toList e.found k ∧ e.context = some context ∧
        Shows source.toList k context := by
  intro source r e
  have hcall : r.call.1 = some (.error e) := by decide +kernel
  exact ⟨hcall, errors_show_their_place.1 source none 6 e hcall⟩

end Lisp
