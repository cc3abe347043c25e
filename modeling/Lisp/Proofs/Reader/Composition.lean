import Lisp.Proofs.Token.Joined

/-! # Reading on and on

All outcomes of reading a text, with errors and what follows them, are a function of its tokens
(`readTokens`). More tokens behind the text matter only to an expression that was not finished:
`readTokens_append` says so of tokens, and `reading_composes_over_lines` of text. -/

namespace Lisp

/-! ## Verdicts -/

/-- The report without the excerpt, which shows what stands around the failure. -/
def ReadError.withoutContext (e : ReadError) : ReadError :=
  { e with context := none }

/-- What an outcome says, wherever it stands in a text. -/
def ReadOutcome.verdict : ReadOutcome → Except ReadError Datum
  | datum d => .ok d
  | fault f found => .error ⟨f.kind, f.message, none, found.map fun t => t.token.text⟩

theorem Reader.mapError_report (r : Reader) (outcome : ReadOutcome) :
    (r.report outcome).mapError ReadError.withoutContext = outcome.verdict := by
  cases outcome with
  | datum d => rfl
  | fault f found => cases found <;> rfl

/-- The outcomes of all reads, each error without its excerpt. -/
def Reader.verdicts (r : Reader) : List (Except ReadError Datum) :=
  r.outcomes.map (Except.mapError ReadError.withoutContext)

/-! ## Outcomes as a function of the tokens -/

namespace ReaderState

variable {limit : Option Nat} {state : ReaderState}

/-- Reading takes at least the first token. -/
theorem length_report_feedAll_lt (t : LocatedToken) (ts : List LocatedToken) :
    (state.feedAll limit (t :: ts)).report.2.length < (t :: ts).length := by
  have hsuffix : (state.feedAll limit (t :: ts)).report.2 <:+ ts := by
    cases h : state.feed limit t.token with
    | more state' =>
        rw [feedAll_of_more h]
        exact report_feedAll_suffix ts
    | done d =>
        rw [feedAll_of_done h]
        exact List.suffix_refl ts
    | fail f =>
        rw [feedAll_of_fail h]
        exact List.suffix_refl ts
  exact Nat.lt_succ_of_le hsuffix.length_le

/-- The places of the tokens do not matter. -/
theorem report_feedAll_congr {ts us : List LocatedToken}
    (h : ts.map LocatedToken.token = us.map LocatedToken.token) :
    (state.feedAll limit ts).report.1.verdict = (state.feedAll limit us).report.1.verdict ∧
      (state.feedAll limit ts).report.2.map LocatedToken.token =
        (state.feedAll limit us).report.2.map LocatedToken.token := by
  induction ts generalizing state us with
  | nil =>
      obtain rfl := List.map_eq_nil_iff.mp h.symm
      exact ⟨rfl, rfl⟩
  | cons t ts ih =>
      obtain ⟨u, us, rfl, hu, hus⟩ := List.map_eq_cons_iff.mp h.symm
      cases hfeed : state.feed limit t.token with
      | more state' =>
          rw [feedAll_of_more hfeed, feedAll_of_more (hu ▸ hfeed)]
          exact ih hus.symm
      | done d =>
          rw [feedAll_of_done hfeed, feedAll_of_done (hu ▸ hfeed)]
          exact ⟨rfl, hus.symm⟩
      | fail f =>
          rw [feedAll_of_fail hfeed, feedAll_of_fail (hu ▸ hfeed)]
          exact ⟨by simp [FeedOutcome.report, ReadOutcome.verdict, hu], hus.symm⟩

end ReaderState

/-- What reading again and again makes of tokens. -/
def readTokens (limit : Option Nat) : List LocatedToken → List (Except ReadError Datum)
  | [] => []
  | t :: ts =>
    (ReaderState.start.feedAll limit (t :: ts)).report.1.verdict ::
      readTokens limit (ReaderState.start.feedAll limit (t :: ts)).report.2
termination_by ts => ts.length
decreasing_by exact ReaderState.length_report_feedAll_lt t ts

theorem readTokens_of_ne_nil {limit : Option Nat} {ts : List LocatedToken} (h : ts ≠ []) :
    readTokens limit ts = (ReaderState.start.feedAll limit ts).report.1.verdict ::
      readTokens limit (ReaderState.start.feedAll limit ts).report.2 := by
  cases ts with
  | nil => exact absurd rfl h
  | cons t ts => rw [readTokens]

theorem readTokens_congr {limit : Option Nat} {ts us : List LocatedToken}
    (h : ts.map LocatedToken.token = us.map LocatedToken.token) :
    readTokens limit ts = readTokens limit us := by
  fun_induction readTokens limit ts generalizing us with
  | case1 =>
      obtain rfl := List.map_eq_nil_iff.mp h.symm
      rw [readTokens]
  | case2 t ts ih =>
      have hne : us ≠ [] := by
        rintro rfl
        cases h
      have hfirst := @ReaderState.report_feedAll_congr limit .start _ _ h
      rw [readTokens_of_ne_nil hne, hfirst.1, ih hfirst.2]

theorem Reader.verdicts_eq (r : Reader) : r.verdicts = readTokens r.limit r.stream.located := by
  rw [verdicts]
  fun_induction outcomes r with
  | case1 r hread =>
      rw [(r.read?_eq_none_iff).mp hread, readTokens, List.map_nil]
  | case2 r result r' hread ih =>
      have hne := located_ne_nil hread
      obtain ⟨r'', hread', -, hlimit, hrest⟩ := r.read?_eq hne
      cases hread.symm.trans hread'
      rw [List.map_cons, ih, mapError_report, hlimit, hrest, readTokens_of_ne_nil hne]

/-! ## An unfinished expression comes last -/

/-- The verdict is that the text ended inside an expression. -/
def isIncomplete : Except ReadError Datum → Bool
  | .ok _ => false
  | .error e => e.kind == .incomplete

/-- A step is regular if an end of the text after it would be an incomplete expression, and if what
it refuses is refused for another reason. -/
def ReaderStep.Regular : ReaderStep → Prop
  | more state => state.endFault.kind = .incomplete
  | done _ => True
  | fail f => f.kind ≠ .incomplete

namespace ReaderState

variable {limit : Option Nat}

theorem regular_complete (d : Datum) (stack : List Enclosing) : (complete d stack).Regular := by
  induction stack generalizing d with
  | nil => trivial
  | cons enclosing stack ih =>
      cases enclosing with
      | quote => exact ih d.quote
      | elements rev => rfl
      | tail rev => rfl

theorem regular_begin (stack : List Enclosing) (t : Token) : (begin limit stack t).Regular := by
  unfold begin
  split
  · exact ReadErrorKind.noConfusion
  · cases t with
    | opening => rfl
    | closing => exact ReadErrorKind.noConfusion
    | quote => rfl
    | dot => exact ReadErrorKind.noConfusion
    | atom text => exact regular_complete _ stack

theorem regular_feed (state : ReaderState) (t : Token) : (state.feed limit t).Regular := by
  unfold feed
  split
  · exact regular_complete _ _
  · exact ReadErrorKind.noConfusion
  · exact regular_complete _ _
  · exact ReadErrorKind.noConfusion
  · rfl
  · exact regular_begin _ _

end ReaderState

def FeedOutcome.Regular : FeedOutcome → Prop
  | pending state => state.endFault.kind = .incomplete
  | done _ _ => True
  | refused f _ _ => f.kind ≠ .incomplete

namespace ReaderState

variable {limit : Option Nat}

theorem regular_feedAll_of_rest {ts : List LocatedToken}
    (hrest : ∀ state, state.endFault.kind = .incomplete → (feedAll limit state ts).Regular)
    (state : ReaderState) (t : LocatedToken) : (state.feedAll limit (t :: ts)).Regular := by
  have hregular : (state.feed limit t.token).Regular := regular_feed state t.token
  cases h : state.feed limit t.token with
  | more state' =>
      rw [h] at hregular
      rw [feedAll_of_more h]
      exact hrest state' hregular
  | done d =>
      rw [feedAll_of_done h]
      trivial
  | fail f =>
      rw [h] at hregular
      rw [feedAll_of_fail h]
      exact hregular

theorem regular_feedAll (ts : List LocatedToken) (state : ReaderState)
    (h : state.endFault.kind = .incomplete) : (state.feedAll limit ts).Regular := by
  induction ts generalizing state with
  | nil => exact h
  | cons t ts ih => exact regular_feedAll_of_rest ih state t

theorem regular_feedAll_cons (state : ReaderState) (t : LocatedToken) (ts : List LocatedToken) :
    (state.feedAll limit (t :: ts)).Regular :=
  regular_feedAll_of_rest (regular_feedAll ts) state t

end ReaderState

/-! ## Tokens that come later -/

/-- Reading ends between two expressions: no verdict is that of an unfinished one, and what comes
later is read as it would be by itself. -/
structure Settled (limit : Option Nat) (ts : List LocatedToken) : Prop where
  complete : ∀ v ∈ readTokens limit ts, isIncomplete v = false
  append : ∀ us, readTokens limit (ts ++ us) = readTokens limit ts ++ readTokens limit us

/-- Reading ends inside an expression: the last verdict says so, no other does, and the others
stand whatever comes later. -/
structure Unsettled (limit : Option Nat) (ts : List LocatedToken)
    (before : List (Except ReadError Datum)) (last : Except ReadError Datum) : Prop where
  eq : readTokens limit ts = before ++ [last]
  incomplete : isIncomplete last = true
  complete : ∀ v ∈ before, isIncomplete v = false
  append : ∀ us, before <+: readTokens limit (ts ++ us)

section Later

variable {limit : Option Nat} {ts rest : List LocatedToken} {v : Except ReadError Datum}

/-- A first verdict that is not that of an unfinished expression does not wait for more tokens. -/
theorem settled_or_unsettled_of_first (hv : isIncomplete v = false)
    (hfirst : ∀ us, readTokens limit (ts ++ us) = v :: readTokens limit (rest ++ us))
    (hrest : Settled limit rest ∨ ∃ before last, Unsettled limit rest before last) :
    Settled limit ts ∨ ∃ before last, Unsettled limit ts before last := by
  have hnil : readTokens limit ts = v :: readTokens limit rest := by
    simpa using hfirst []
  rcases hrest with hrest | ⟨before, last, hrest⟩
  · refine .inl ⟨?_, ?_⟩
    · intro w hw
      rw [hnil] at hw
      rcases List.mem_cons.mp hw with rfl | hw
      · exact hv
      · exact hrest.complete w hw
    · intro us
      rw [hfirst, hnil, hrest.append, List.cons_append]
  · refine .inr ⟨v :: before, last, ?_, hrest.incomplete, ?_, ?_⟩
    · rw [hnil, hrest.eq, List.cons_append]
    · intro w hw
      rcases List.mem_cons.mp hw with rfl | hw
      · exact hv
      · exact hrest.complete w hw
    · intro us
      rw [hfirst]
      exact List.cons_prefix_cons.mpr ⟨rfl, hrest.append us⟩

end Later

theorem readTokens_append (limit : Option Nat) (ts : List LocatedToken) :
    Settled limit ts ∨ ∃ before last, Unsettled limit ts before last := by
  fun_induction readTokens limit ts with
  | case1 =>
      refine .inl ⟨?_, ?_⟩
      · intro v hv
        rw [readTokens] at hv
        cases hv
      · intro us
        rw [readTokens, List.nil_append, List.nil_append]
  | case2 t ts ih =>
      have hregular : (ReaderState.start.feedAll limit (t :: ts)).Regular :=
        ReaderState.regular_feedAll_cons .start t ts
      have happend := @ReaderState.feedAll_append limit .start (t :: ts)
      cases hout : ReaderState.start.feedAll limit (t :: ts) with
      | pending state =>
          rw [hout] at hregular
          refine .inr ⟨[], (ReadOutcome.fault state.endFault none).verdict, ?_, ?_, by simp,
            fun us => List.nil_prefix⟩
          · rw [readTokens, hout]
            simp [FeedOutcome.report, readTokens]
          · simpa [isIncomplete, ReadOutcome.verdict, FeedOutcome.Regular] using hregular
      | done d rest =>
          rw [hout] at ih
          refine settled_or_unsettled_of_first (v := .ok d) rfl (fun us => ?_) ih
          rw [readTokens_of_ne_nil (by simp), happend us, hout]
          rfl
      | refused f t' rest =>
          rw [hout] at ih hregular
          refine settled_or_unsettled_of_first
            (v := (ReadOutcome.fault f (some t')).verdict) ?_ (fun us => ?_) ih
          · simpa [isIncomplete, ReadOutcome.verdict, FeedOutcome.Regular] using hregular
          · rw [readTokens_of_ne_nil (by simp), happend us, hout]
            rfl

/-! ## Text that comes later -/

def verdictsOn (limit : Option Nat) (text : String) : List (Except ReadError Datum) :=
  (Reader.ofSource text limit).verdicts

theorem verdictsOn_join (limit : Option Nat) (s t : String) :
    verdictsOn limit (s ++ "\n" ++ t) =
      readTokens limit ((Reader.ofSource s limit).stream.located ++
        (Reader.ofSource t limit).stream.located) := by
  rw [verdictsOn, Reader.verdicts_eq]
  refine readTokens_congr ?_
  rw [List.map_append]
  have hjoin := TokenStream.tokensOf_append_newline s.toList t.toList
  simpa [Reader.ofSource, TokenStream.ofSource, TokenStream.tokensOf, TokenStream.tokens]
    using hjoin

/-- Texts joined at a line end are read one after the other. If the first does not end inside an
expression, its verdicts are followed by those of the second. If it does, only its last verdict
says so, and the ones before stand. So nothing that comes later changes any other verdict. -/
theorem reading_composes_over_lines (limit : Option Nat) (s t : String) :
    ((verdictsOn limit s).getLast?.any isIncomplete = false →
      verdictsOn limit (s ++ "\n" ++ t) = verdictsOn limit s ++ verdictsOn limit t) ∧
    ((verdictsOn limit s).getLast?.any isIncomplete = true →
      (verdictsOn limit s).dropLast <+: verdictsOn limit (s ++ "\n" ++ t)) ∧
    (∀ v ∈ (verdictsOn limit s).dropLast, isIncomplete v = false) ∧
    (∀ (i : Nat) (v : Except ReadError Datum), (verdictsOn limit s)[i]? = some v →
      isIncomplete v = false → (verdictsOn limit (s ++ "\n" ++ t))[i]? = some v) := by
  have hs : verdictsOn limit s = readTokens limit (Reader.ofSource s limit).stream.located :=
    Reader.verdicts_eq _
  have ht : verdictsOn limit t = readTokens limit (Reader.ofSource t limit).stream.located :=
    Reader.verdicts_eq _
  have hjoin := verdictsOn_join limit s t
  rcases readTokens_append limit (Reader.ofSource s limit).stream.located with
    hsettled | ⟨before, last, hunsettled⟩
  · have happend : verdictsOn limit (s ++ "\n" ++ t) = verdictsOn limit s ++ verdictsOn limit t := by
      rw [hjoin, hsettled.append, hs, ht]
    refine ⟨fun _ => happend, ?_, ?_, ?_⟩
    · intro _
      rw [happend]
      exact (List.dropLast_prefix _).trans (List.prefix_append _ _)
    · intro v hv
      exact hsettled.complete v (hs ▸ (List.dropLast_sublist _).subset hv)
    · intro i v hi _
      obtain ⟨hlt, -⟩ := List.getElem?_eq_some_iff.mp hi
      rw [happend, List.getElem?_append_left hlt]
      exact hi
  · have hout : verdictsOn limit s = before ++ [last] := hs.trans hunsettled.eq
    have hbefore : before <+: verdictsOn limit (s ++ "\n" ++ t) := hjoin ▸ hunsettled.append _
    refine ⟨?_, ?_, ?_, ?_⟩
    · intro hlast
      rw [hout, List.getLast?_concat, Option.any_some, hunsettled.incomplete] at hlast
      cases hlast
    · intro _
      rwa [hout, List.dropLast_concat]
    · intro v hv
      rw [hout, List.dropLast_concat] at hv
      exact hunsettled.complete v hv
    · intro i v hi hv
      rw [hout, List.getElem?_append] at hi
      split at hi
      · rename_i hlt
        obtain ⟨later, hlater⟩ := hbefore
        rw [← hlater, List.getElem?_append_left hlt]
        exact hi
      · -- only the last verdict stands there, and it is incomplete
        obtain rfl : v = last := by simpa using List.mem_of_getElem? hi
        rw [hunsettled.incomplete] at hv
        cases hv

/-- A text that ends in a comment after a refused token, and one that ends inside a list. -/
theorem reading_composes_over_lines_comment_and_list :
    ((verdictsOn (some 2) "a ) ; (").getLast?.any isIncomplete = false ∧
      verdictsOn (some 2) ("a ) ; (" ++ "\n" ++ "b") =
        verdictsOn (some 2) "a ) ; (" ++ verdictsOn (some 2) "b") ∧
    ((verdictsOn (some 2) "a (b").getLast?.any isIncomplete = true ∧
      (verdictsOn (some 2) "a (b").dropLast <+: verdictsOn (some 2) ("a (b" ++ "\n" ++ "c)")) := by
  have hcomplete : (verdictsOn (some 2) "a ) ; (").getLast?.any isIncomplete = false := by
    decide +kernel
  have hincomplete : (verdictsOn (some 2) "a (b").getLast?.any isIncomplete = true := by
    decide +kernel
  exact ⟨⟨hcomplete, (reading_composes_over_lines (some 2) "a ) ; (" "b").1 hcomplete⟩,
    ⟨hincomplete, (reading_composes_over_lines (some 2) "a (b" "c)").2.1 hincomplete⟩⟩

end Lisp
