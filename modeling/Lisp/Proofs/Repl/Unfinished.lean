import Lisp.Proofs.Reader.Depth
import Lisp.Proofs.Reader.Grammar
import Lisp.Proofs.Reader.Lines

/-! # Unfinished text

After each token a reader stands between two expressions or inside one (`ReaderState.standing`).
An expression that a text leaves unfinished can be finished: its lists are closed, and a quote mark
or a dot at the end gets its expression first. Behind a dot there is always room for one, since the
element before it stands as deep. Behind a quote mark at the depth limit there is none, and so the
dialogue asks for more in vain there, and only there: `Repl.needsMore_completable_iff`. -/

namespace Lisp

open TokenStream

/-! ## Where a reader stands -/

/-- The state that a step leads to. A new expression begins behind one that was completed or
refused. -/
def ReaderStep.next : ReaderStep → ReaderState
  | more state => state
  | done _ | fail _ => .start

/-- The verdict that a step brings about if it ends an expression; `t` is the token that led to
it. -/
def ReaderStep.verdict? (t : Token) : ReaderStep → Option (Except ReadError Datum)
  | more _ => none
  | done d => some (.ok d)
  | fail f => some (ReadOutcome.fault f (some ⟨t, 0⟩)).verdict

namespace ReaderState

variable {limit : Option Nat} {state state' : ReaderState} {t : Token}

/-- Where a reader stands after tokens, expression after expression. -/
def standing (limit : Option Nat) (state : ReaderState) (ts : List Token) : ReaderState :=
  ts.foldl (fun state t => (state.feed limit t).next) state

/-- The verdicts that tokens bring about, without the one at the end of the text. -/
def verdicts (limit : Option Nat) : ReaderState → List Token → List (Except ReadError Datum)
  | _, [] => []
  | state, t :: ts =>
    ((state.feed limit t).verdict? t).toList ++ verdicts limit (state.feed limit t).next ts

/-- The verdict at the end of the text; there is none between two expressions. -/
def atEnd : ReaderState → List (Except ReadError Datum)
  | awaiting [] => []
  | state => [(ReadOutcome.fault state.endFault none).verdict]

theorem standing_cons (t : Token) (ts : List Token) :
    state.standing limit (t :: ts) = (state.feed limit t).next.standing limit ts := rfl

theorem standing_append (ts us : List Token) :
    state.standing limit (ts ++ us) = (state.standing limit ts).standing limit us :=
  List.foldl_append

theorem verdicts_append (ts us : List Token) :
    state.verdicts limit (ts ++ us) =
      state.verdicts limit ts ++ (state.standing limit ts).verdicts limit us := by
  induction ts generalizing state with
  | nil => rfl
  | cons t ts ih => rw [List.cons_append, verdicts, verdicts, ih, standing_cons, List.append_assoc]

theorem atEnd_of_ne_start (h : state ≠ start) :
    state.atEnd = [(ReadOutcome.fault state.endFault none).verdict] := by
  unfold atEnd
  split
  · exact absurd rfl h
  · rfl

theorem ne_start_of_feed (h : state.feed limit t = .more state') : state' ≠ start := by
  have hregular := @regular_feed limit state t
  rw [h] at hregular
  rintro rfl
  cases hregular

/-- A text without tokens has no verdicts, so only one with tokens needs to be looked at. -/
theorem verdicts_start {ts : List Token}
    (h : ts ≠ [] → start.verdicts limit ts ++ (start.standing limit ts).atEnd =
      (start.feedAll limit (ts.map fun t => ⟨t, 0⟩)).report.1.verdict ::
        readTokens limit (start.feedAll limit (ts.map fun t => ⟨t, 0⟩)).report.2) :
    start.verdicts limit ts ++ (start.standing limit ts).atEnd = verdictsOf limit ts := by
  by_cases hts : ts = []
  · rw [hts, verdictsOf, List.map_nil, readTokens]
    rfl
  · exact (h hts).trans (readTokens_of_ne_nil (by simpa using hts)).symm

/-- Reading one expression after the other goes from state to state, token by token. -/
theorem verdicts_atEnd (ts : List Token) (h : state ≠ start ∨ ts ≠ []) :
    state.verdicts limit ts ++ (state.standing limit ts).atEnd =
      (state.feedAll limit (ts.map fun t => ⟨t, 0⟩)).report.1.verdict ::
        readTokens limit (state.feedAll limit (ts.map fun t => ⟨t, 0⟩)).report.2 := by
  induction ts generalizing state with
  | nil =>
      have hne : state ≠ start := by simpa using h
      rw [List.map_nil, feedAll, FeedOutcome.report, readTokens]
      exact atEnd_of_ne_start hne
  | cons t ts ih =>
      have hrest : start.verdicts limit ts ++ (start.standing limit ts).atEnd =
          verdictsOf limit ts := verdicts_start fun hts => ih (.inr hts)
      rw [verdicts, standing_cons, List.map_cons]
      cases hfeed : state.feed limit t with
      | more state' =>
          rw [feedAll_of_more hfeed]
          exact ih (.inl (ne_start_of_feed hfeed))
      | done d =>
          rw [feedAll_of_done hfeed]
          exact congrArg (.ok d :: ·) hrest
      | fail f =>
          rw [feedAll_of_fail hfeed]
          exact congrArg ((ReadOutcome.fault f (some ⟨t, 0⟩)).verdict :: ·) hrest

theorem verdictsOf_eq (limit : Option Nat) (ts : List Token) :
    verdictsOf limit ts = start.verdicts limit ts ++ (start.standing limit ts).atEnd :=
  (verdicts_start fun hts => verdicts_atEnd ts (.inr hts)).symm

/-- Only the end of the text leaves an expression unfinished. -/
theorem isIncomplete_of_mem_verdicts {ts : List Token} {v : Except ReadError Datum}
    (hv : v ∈ state.verdicts limit ts) : isIncomplete v = false := by
  induction ts generalizing state with
  | nil => cases hv
  | cons t ts ih =>
      rcases List.mem_append.mp hv with hv | hv
      · have hregular := @regular_feed limit state t
        cases hfeed : state.feed limit t with
        | more state' => simp [hfeed, ReaderStep.verdict?] at hv
        | done d =>
            obtain rfl : v = .ok d := by simpa [hfeed, ReaderStep.verdict?] using hv
            rfl
        | fail f =>
            rw [hfeed] at hregular
            obtain rfl : v = (ReadOutcome.fault f (some ⟨t, 0⟩)).verdict := by
              simpa [hfeed, ReaderStep.verdict?] using hv
            simpa [isIncomplete, ReadOutcome.verdict, ReaderStep.Regular] using hregular
      · exact ih hv

/-! ## Finishing an expression -/

/-- The tokens finish the expression that the reader stands in, and nothing more. -/
def FinishedBy (limit : Option Nat) (state : ReaderState) (us : List Token) : Prop :=
  ∃ d, state.verdicts limit us = [.ok d] ∧ state.standing limit us = start

/-- The closing parentheses that unfinished constructs lack. -/
def closers : List Enclosing → List Token
  | [] => []
  | .quote :: stack => closers stack
  | .elements _ :: stack | .tail _ :: stack => .closing :: closers stack

theorem FinishedBy.of_more {us : List Token} (h : state.feed limit t = .more state')
    (hfinished : state'.FinishedBy limit us) : state.FinishedBy limit (t :: us) := by
  obtain ⟨d, hverdicts, hstanding⟩ := hfinished
  refine ⟨d, ?_, ?_⟩
  · rw [verdicts, h]
    exact hverdicts
  · rw [standing_cons, h]
    exact hstanding

/-- Behind a finished part the constructs around it are closed one after the other. -/
theorem finishedBy_of_complete {d : Datum} {stack : List Enclosing}
    (h : state.feed limit t = complete d stack) : state.FinishedBy limit (t :: closers stack) := by
  induction stack generalizing state t d with
  | nil =>
      refine ⟨d, ?_, ?_⟩
      · rw [verdicts, h]
        rfl
      · rw [standing_cons, h]
        rfl
  | cons enclosing stack ih =>
      cases enclosing with
      | quote => exact ih h
      | elements rev => exact .of_more h (ih (feed_closing_elements (d :: rev)))
      | tail rev => exact .of_more h (ih (feed_closing_tail rev d))

/-! ### What a limit leaves room for -/

variable {m : Nat}

structure Sound (m : Nat) (state : ReaderState) : Prop where
  consumed : ∃ p, Consumed p state
  fits : state.Fits m

theorem sound_start (m : Nat) : start.Sound m :=
  ⟨⟨[], consumed_start⟩, trivial⟩

theorem Sound.next (h : state.Sound m) (t : Token) : (state.feed (some m) t).next.Sound m := by
  have hfits := fits_feed h.fits t
  cases hfeed : state.feed (some m) t with
  | done d => exact sound_start m
  | fail f => exact sound_start m
  | more state' =>
      rw [hfeed] at hfits
      refine ⟨?_, hfits⟩
      obtain ⟨p, hconsumed⟩ := h.consumed
      have hsound := hconsumed.sound_feed t
      rcases state.fits_or_tooDeep m t with hbelow | ⟨k, hdepth, hk⟩
      · rw [← feed_of_fits hbelow, hfeed] at hsound
        exact ⟨p ++ [t], hsound⟩
      · rw [feed_of_tooDeep hdepth hk] at hfeed
        cases hfeed

theorem Sound.standing (h : state.Sound m) (ts : List Token) :
    (state.standing (some m) ts).Sound m := by
  induction ts generalizing state with
  | nil => exact h
  | cons t ts ih => exact ih (h.next t)

/-- A quote mark came last, and its expression would stand inside `m` constructs. -/
def isDeepestQuote (m : Nat) : ReaderState → Bool
  | awaiting (.quote :: stack) => stack.length + 1 == m
  | _ => false

/-- An expression may come next unless as many constructs are unfinished as the limit says, and the
innermost of them is a list or a quote mark. -/
theorem Sound.awaiting_cases {stack : List Enclosing} (h : (awaiting stack).Sound m)
    (hne : stack ≠ []) :
    stack.length < m ∨ (∃ rev outer, stack = .elements rev :: outer) ∨
      (awaiting stack).isDeepestQuote m = true := by
  cases stack with
  | nil => exact absurd rfl hne
  | cons enclosing outer =>
      have hlength : outer.length < m := h.fits.1
      cases enclosing with
      | elements rev => exact .inr (.inl ⟨rev, outer, rfl⟩)
      | quote =>
          by_cases hroom : outer.length + 1 < m
          · exact .inl hroom
          · exact .inr (.inr (by simp [isDeepestQuote]; omega))
      | tail rev =>
          -- the element before the dot stands as deep as what comes behind it
          obtain ⟨p, hconsumed⟩ := h.consumed
          cases hconsumed with
          | awaiting hopened =>
              cases hopened with
              | tail _ _ hrev =>
                  obtain ⟨d, hd⟩ := List.exists_mem_of_ne_nil rev hrev
                  have hdepth : d.nesting + 1 + outer.length < m := h.fits.2.1 d hd
                  exact .inl (by rw [List.length_cons]; omega)

/-- The tokens that finish an expression can be written one after the other. -/
theorem tokensOfLines_text {us : List Token} (h : ∀ u ∈ us, u = .closing ∨ u = .atom "NIL") :
    tokensOfLines (us.map Token.text) = us := by
  induction us with
  | nil => rfl
  | cons u us ih =>
      have hu : tokensOf u.text.toList = [u] := by
        rcases h u (by simp) with rfl | rfl <;> decide +kernel
      rw [List.map_cons, tokensOfLines_cons, hu, ih fun v hv => h v (by simp [hv]),
        List.singleton_append]

theorem eq_closing_of_mem_closers {stack : List Enclosing} {u : Token} (h : u ∈ closers stack) :
    u = .closing := by
  induction stack with
  | nil => cases h
  | cons enclosing stack ih =>
      cases enclosing with
      | quote => exact ih h
      | elements rev => exact (List.mem_cons.mp h).elim id ih
      | tail rev => exact (List.mem_cons.mp h).elim id ih

/-- Whatever is unfinished can be finished, but for a quote mark at the limit. -/
theorem Sound.exists_finishedBy (h : state.Sound m) (hne : state ≠ start)
    (hquote : state.isDeepestQuote m = false) :
    ∃ us, tokensOfLines (us.map Token.text) = us ∧ state.FinishedBy (some m) us := by
  have hwritten : ∀ {t : Token} {stack : List Enclosing}, t = .closing ∨ t = .atom "NIL" →
      tokensOfLines ((t :: closers stack).map Token.text) = t :: closers stack := by
    intro t stack ht
    refine tokensOfLines_text fun u hu => ?_
    rcases List.mem_cons.mp hu with rfl | hu
    · exact ht
    · exact .inl (eq_closing_of_mem_closers hu)
  cases state with
  | closing rev tail stack =>
      exact ⟨_, hwritten (.inl rfl), finishedBy_of_complete (feed_closing_tail rev tail)⟩
  | awaiting stack =>
      have hstack : stack ≠ [] := by
        rintro rfl
        exact hne rfl
      rcases h.awaiting_cases hstack with hroom | ⟨rev, outer, rfl⟩ | hdeepest
      · have hfeed : (awaiting stack).feed (some m) (.atom "NIL") =
            complete (.ofAtom "NIL") stack := by
          rw [feed_awaiting (by simp) (by simp), begin_of_fits (by simpa [isTooDeep] using hroom)]
          rfl
        exact ⟨_, hwritten (.inr rfl), finishedBy_of_complete hfeed⟩
      · exact ⟨_, hwritten (.inl rfl), finishedBy_of_complete (feed_closing_elements rev)⟩
      · rw [hquote] at hdeepest
        cases hdeepest

/-! ### A quote mark at the limit -/

theorem exists_of_isDeepestQuote (h : state.isDeepestQuote m = true) :
    ∃ stack, state = awaiting (.quote :: stack) ∧ stack.length + 1 = m := by
  unfold isDeepestQuote at h
  split at h
  · rename_i stack
    exact ⟨stack, rfl, by simpa using h⟩
  · cases h

theorem feed_of_isDeepestQuote (h : state.isDeepestQuote m = true) (t : Token) :
    state.feed (some m) t = .fail (.tooDeeplyNested m) := by
  obtain ⟨stack, rfl, hlength⟩ := exists_of_isDeepestQuote h
  have hfeed : (awaiting (.quote :: stack)).feed (some m) t =
      begin (some m) (.quote :: stack) t := by
    cases t <;> rfl
  rw [hfeed, begin_of_isTooDeep (by simp [isTooDeep, hlength])]
  rfl

theorem complete_ne_quote {d : Datum} {outer stack : List Enclosing} :
    complete d outer ≠ .more (awaiting (.quote :: stack)) := by
  induction outer generalizing d with
  | nil => nofun
  | cons enclosing outer ih =>
      cases enclosing with
      | quote => exact ih
      | elements rev => nofun
      | tail rev => nofun

/-- Only a quote mark enters a quote. -/
theorem eq_quote_of_feed {stack : List Enclosing}
    (h : state.feed limit t = .more (awaiting (.quote :: stack))) : t = .quote := by
  unfold feed at h
  split at h
  · exact absurd h complete_ne_quote
  · cases h
  · exact absurd h complete_ne_quote
  · cases h
  · cases h
  · unfold begin at h
    split at h
    · cases h
    · cases t with
      | quote => rfl
      | atom text => exact absurd h complete_ne_quote
      | opening => cases h
      | closing => cases h
      | dot => cases h

theorem getLast?_of_isDeepestQuote {ts : List Token}
    (h : (start.standing limit ts).isDeepestQuote m = true) : ts.getLast? = some .quote := by
  obtain ⟨stack, hstate, -⟩ := exists_of_isDeepestQuote h
  rcases List.eq_nil_or_concat ts with rfl | ⟨init, t, rfl⟩
  · cases hstate
  · rw [List.concat_eq_append, standing_append, standing_cons] at hstate
    cases hfeed : (start.standing limit init).feed limit t with
    | more state' =>
        rw [hfeed] at hstate
        obtain rfl : state' = awaiting (.quote :: stack) := hstate
        rw [List.concat_eq_append, List.getLast?_concat, eq_quote_of_feed hfeed]
    | done d =>
        rw [hfeed] at hstate
        cases hstate
    | fail f =>
        rw [hfeed] at hstate
        cases hstate

/-! ### The first error -/

theorem length_atEnd_le (state : ReaderState) : state.atEnd.length ≤ 1 := by
  unfold atEnd
  split <;> simp

/-- If the first error is that of an unfinished expression, it comes from the end of the text. -/
theorem verdicts_of_incomplete {ts : List Token} {ds : List Datum} {e : ReadError}
    {rest : List (Except ReadError Datum)}
    (h : verdictsOf limit ts = ds.map .ok ++ .error e :: rest) (he : e.kind = .incomplete) :
    start.verdicts limit ts = ds.map .ok ∧ start.standing limit ts ≠ start := by
  have hends : start.verdicts limit ts = ds.map .ok ∧
      (start.standing limit ts).atEnd = .error e :: rest := by
    rw [verdictsOf_eq] at h
    rcases List.append_eq_append_iff.mp h with ⟨more, hds, hend⟩ | ⟨more, hverdicts, hend⟩
    · have hlength := length_atEnd_le (start.standing limit ts)
      rw [hend, List.length_append, List.length_cons] at hlength
      obtain rfl : more = [] := List.length_eq_zero_iff.mp (by omega)
      exact ⟨by simpa using hds.symm, hend⟩
    · cases more with
      | nil => exact ⟨by simpa using hverdicts, hend.symm⟩
      | cons v more =>
          obtain ⟨rfl, -⟩ := List.cons.inj hend
          have hmem : .error e ∈ start.verdicts limit ts := by simp [hverdicts]
          have hcomplete := isIncomplete_of_mem_verdicts hmem
          simp [isIncomplete, he] at hcomplete
  refine ⟨hends.1, fun hstart => ?_⟩
  rw [hstart] at hends
  cases hends.2

end ReaderState

open ReaderState

/-! ## Collected lines -/

/-- The text ends with a quote mark that stands inside `m - 1` unfinished constructs. -/
def endsAtDeepestQuote (m : Nat) (text : String) : Bool :=
  (start.standing (some m) (tokensOf text.toList)).isDeepestQuote m

namespace Repl

variable {m : Nat} {limit : Option Nat} {buffer : String}

theorem readBuffer_eq_needsMore_iff : readBuffer limit buffer = .needsMore ↔
    ∃ e, (Reader.ofSource buffer limit).readAll = .error e ∧ e.kind = .incomplete := by
  rw [readBuffer]
  split
  · simp_all
  · split <;> simp_all

/-- More is asked for if the first error is that of an unfinished expression. -/
theorem verdictsOf_of_needsMore (h : readBuffer limit buffer = .needsMore) :
    ∃ (ds : List Datum) (e : ReadError) (rest : List (Except ReadError Datum)),
      verdictsOf limit (tokensOf buffer.toList) = ds.map .ok ++ .error e :: rest ∧
        e.kind = .incomplete := by
  obtain ⟨e, hall, hkind⟩ := readBuffer_eq_needsMore_iff.mp h
  obtain ⟨ds, rest, hverdicts⟩ := Reader.verdictsOf_of_error hall
  exact ⟨ds, e.withoutContext, rest, hverdicts, hkind⟩

/-- The first error decides what collected lines amount to. -/
theorem readBuffer_of_verdictsOf {ds : List Datum} {e : ReadError}
    {rest : List (Except ReadError Datum)}
    (h : verdictsOf limit (tokensOf buffer.toList) = ds.map .ok ++ .error e :: rest) :
    ∃ e', e'.kind = e.kind ∧
      readBuffer limit buffer = if e.kind = .incomplete then .needsMore else .invalid e' := by
  obtain ⟨e', hall, rfl⟩ := Reader.readAll_of_verdictsOf h
  refine ⟨e', rfl, ?_⟩
  rw [readBuffer, hall]
  rfl

theorem exists_complete (h : readBuffer (some m) buffer = .needsMore)
    (hquote : endsAtDeepestQuote m buffer = false) :
    ∃ t ds, readBuffer (some m) (buffer ++ t) = .complete ds := by
  obtain ⟨ds, e, rest, hfirst, he⟩ := verdictsOf_of_needsMore h
  obtain ⟨hds, hne⟩ := verdicts_of_incomplete hfirst he
  have hsound := (sound_start m).standing (tokensOf buffer.toList)
  obtain ⟨us, hwritten, d, hverdicts, hstanding⟩ := hsound.exists_finishedBy hne hquote
  refine ⟨"\n" ++ ReplEntry.block (us.map Token.text), ds ++ [d], ?_⟩
  have htokens : tokensOf (buffer ++ ("\n" ++ ReplEntry.block (us.map Token.text))).toList =
      tokensOf buffer.toList ++ us := by
    have hjoin := tokensOf_append_newline buffer.toList (ReplEntry.block (us.map Token.text)).toList
    rw [tokensOf_block, hwritten] at hjoin
    simpa using hjoin
  rw [readBuffer_eq_complete_iff, htokens, verdictsOf_eq, verdicts_append, standing_append, hds,
    hverdicts, hstanding]
  simp [ReaderState.start, atEnd]

/-- Behind a quote mark at the limit only blanks and comments are not refused. -/
theorem readBuffer_append_of_deepestQuote (h : readBuffer (some m) buffer = .needsMore)
    (hquote : endsAtDeepestQuote m buffer = true) (t : String) :
    readBuffer (some m) (buffer ++ t) = .needsMore ∨
      ∃ e, readBuffer (some m) (buffer ++ t) = .invalid e ∧ e.kind = .tooDeep := by
  obtain ⟨ds, e, rest, hfirst, he⟩ := verdictsOf_of_needsMore h
  have hlast : (tokensOf buffer.toList).getLast? = some .quote := getLast?_of_isDeepestQuote hquote
  have hatom : ∀ text, (tokensOf buffer.toList).getLast? ≠ some (.atom text) := by simp [hlast]
  obtain ⟨us, hus⟩ := tokensOf_isPrefix_append hatom t.toList
  rw [← String.toList_append] at hus
  cases us with
  | nil =>
      left
      rw [← List.append_nil (tokensOf buffer.toList), hus] at hfirst
      obtain ⟨e', -, hread⟩ := readBuffer_of_verdictsOf hfirst
      rw [hread, if_pos he]
  | cons u us =>
      right
      have htooDeep : verdictsOf (some m) (tokensOf (buffer ++ t).toList) = ds.map .ok ++
          (ReadOutcome.fault (.tooDeeplyNested m) (some ⟨u, 0⟩)).verdict ::
            (ReaderState.start.verdicts (some m) us ++
              (ReaderState.start.standing (some m) us).atEnd) := by
        rw [← hus, verdictsOf_eq, verdicts_append, standing_append,
          (verdicts_of_incomplete hfirst he).1, ReaderState.verdicts, standing_cons,
          feed_of_isDeepestQuote hquote, List.append_assoc]
        rfl
      obtain ⟨e', hkind, hread⟩ := readBuffer_of_verdictsOf htooDeep
      exact ⟨e', hread, hkind⟩

theorem not_complete_of_deepestQuote (h : readBuffer (some m) buffer = .needsMore)
    (hquote : endsAtDeepestQuote m buffer = true) :
    ¬ ∃ t ds, readBuffer (some m) (buffer ++ t) = .complete ds := by
  rintro ⟨t, ds, hcomplete⟩
  rcases readBuffer_append_of_deepestQuote h hquote t with hmore | ⟨e, hinvalid, -⟩
  · cases hcomplete.symm.trans hmore
  · cases hcomplete.symm.trans hinvalid

/-- More is asked for in vain only behind a quote mark at the limit: without one the collected lines
can be completed, and behind one whatever follows leaves them unfinished or is too deep. -/
theorem needsMore_completable_iff (h : readBuffer (some m) buffer = .needsMore) :
    ((∃ t ds, readBuffer (some m) (buffer ++ t) = .complete ds) ↔
      endsAtDeepestQuote m buffer = false) ∧
    (endsAtDeepestQuote m buffer = true → ∀ t, readBuffer (some m) (buffer ++ t) = .needsMore ∨
      ∃ e, readBuffer (some m) (buffer ++ t) = .invalid e ∧ e.kind = .tooDeep) := by
  refine ⟨⟨fun hcomplete => ?_, exists_complete h⟩, readBuffer_append_of_deepestQuote h⟩
  by_contra hquote
  rw [Bool.not_eq_false] at hquote
  exact not_complete_of_deepestQuote h hquote hcomplete

/-- Under a limit of three: inside the deepest list, behind the deepest dot, and behind the deepest
quote mark, which a comment follows. -/
theorem needsMore_completable_iff_deepest :
    (readBuffer (some 3) "x ('(" = .needsMore ∧
      ∃ t ds, readBuffer (some 3) ("x ('(" ++ t) = .complete ds) ∧
    (readBuffer (some 3) "x ((y ." = .needsMore ∧
      ∃ t ds, readBuffer (some 3) ("x ((y ." ++ t) = .complete ds) ∧
    readBuffer (some 3) "x ((' ; y" = .needsMore ∧
      ¬ ∃ t ds, readBuffer (some 3) ("x ((' ; y" ++ t) = .complete ds := by
  have hlist : readBuffer (some 3) "x ('(" = .needsMore :=
    readBuffer_eq_needsMore_iff.mpr
      ⟨.located .incomplete ReadFault.endInsideList.message "x ('(" 5 none, by decide +kernel, rfl⟩
  have hdot : readBuffer (some 3) "x ((y ." = .needsMore :=
    readBuffer_eq_needsMore_iff.mpr
      ⟨.located .incomplete ReadFault.endInsideList.message "x ((y ." 7 none, by decide +kernel,
        rfl⟩
  have hquote : readBuffer (some 3) "x ((' ; y" = .needsMore :=
    readBuffer_eq_needsMore_iff.mpr
      ⟨.located .incomplete ReadFault.endAfterQuote.message "x ((' ; y" 9 none, by decide +kernel,
        rfl⟩
  refine ⟨⟨hlist, (needsMore_completable_iff hlist).1.mpr (by decide +kernel)⟩,
    ⟨hdot, (needsMore_completable_iff hdot).1.mpr (by decide +kernel)⟩, hquote, fun hcomplete => ?_⟩
  have hdeepest : endsAtDeepestQuote 3 "x ((' ; y" = true := by decide +kernel
  rw [(needsMore_completable_iff hquote).1.mp hcomplete] at hdeepest
  cases hdeepest

/-! ### Quote marks only -/

theorem tokensOf_quotes (n : Nat) :
    tokensOf (List.replicate n '\'') = List.replicate n .quote := by
  induction n with
  | zero => exact tokensOf_nil
  | succ n ih =>
      have hblanks : afterBlanks false ('\'' :: List.replicate n '\'') =
          '\'' :: List.replicate n '\'' := by
        rw [afterBlanks_cons]
        rfl
      rw [List.replicate_succ, tokensOf_of_cons hblanks, List.replicate_succ, ← ih]
      rfl

/-- Quote marks up to the limit are entered one after the other. -/
theorem standing_quotes {stack : List Enclosing} {n : Nat} (h : stack.length + n ≤ m) :
    (awaiting stack).verdicts (some m) (List.replicate n .quote) = [] ∧
      (awaiting stack).standing (some m) (List.replicate n .quote) =
        awaiting (List.replicate n .quote ++ stack) := by
  induction n generalizing stack with
  | zero => exact ⟨rfl, rfl⟩
  | succ n ih =>
      have hfeed : (awaiting stack).feed (some m) .quote = .more (awaiting (.quote :: stack)) := by
        rw [feed_awaiting (by decide) (by decide), begin_of_fits (by simp [isTooDeep]; omega)]
        rfl
      obtain ⟨hverdicts, hstanding⟩ := @ih (.quote :: stack) (by rw [List.length_cons]; omega)
      rw [List.replicate_succ, ReaderState.verdicts, standing_cons, hfeed]
      refine ⟨hverdicts, hstanding.trans ?_⟩
      rw [List.replicate_succ', List.append_assoc]
      rfl

/-- A line of quote marks, as many as the limit says, asks for more in vain. -/
theorem readBuffer_quotes {line : String} {n : Nat}
    (hline : line.toList = List.replicate (n + 1) '\'') :
    readBuffer (some (n + 1)) (ReplEntry.block [line]) = .needsMore ∧
      endsAtDeepestQuote (n + 1) (ReplEntry.block [line]) = true := by
  have htokens : tokensOf (ReplEntry.block [line]).toList = List.replicate (n + 1) .quote := by
    rw [tokensOf_block, tokensOfLines_cons, hline, tokensOf_quotes, tokensOfLines_nil,
      List.append_nil]
  have hquotes := @standing_quotes (n + 1) [] (n + 1) (by simp)
  rw [List.append_nil, ← htokens] at hquotes
  constructor
  · have hend : verdictsOf (some (n + 1)) (tokensOf (ReplEntry.block [line]).toList) =
        [].map .ok ++ [(ReadOutcome.fault .endAfterQuote none).verdict] := by
      rw [verdictsOf_eq, ReaderState.start, hquotes.1, hquotes.2]
      rfl
    obtain ⟨e, -, hread⟩ := readBuffer_of_verdictsOf hend
    exact hread
  · rw [endsAtDeepestQuote, ReaderState.start, hquotes.2]
    simp [List.replicate_succ, isDeepestQuote]

/-- A line of as many quote marks as the dialogue's limit says: more is asked for, and nothing that
comes later completes it. -/
theorem needsMore_without_completion :
    let buffer := ReplEntry.block [String.ofList (List.replicate 256 '\'')]
    interpreter.limits.parse = some 256 ∧ readBuffer (some 256) buffer = .needsMore ∧
      ¬ ∃ t ds, readBuffer (some 256) (buffer ++ t) = .complete ds := by
  intro buffer
  obtain ⟨hmore, hquote⟩ := readBuffer_quotes (n := 255) String.toList_ofList
  exact ⟨rfl, hmore, not_complete_of_deepestQuote hmore hquote⟩

end Repl

end Lisp
