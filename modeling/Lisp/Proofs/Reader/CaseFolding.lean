import Lisp.Proofs.Reader.Lines
import Lisp.Proofs.Reader.Readable
import Mathlib.Data.List.Forall2

/-! # Reading in upper case

Folding a whole text to upper case may make it longer, but it moves no character that a token or a
comment begins or ends with, and none that a number is made of. So the tokens of the folded text are
the folded tokens of the text, and every reading of them goes the same way. -/

namespace Lisp

def Token.upper : Token → Token
  | atom text => atom (Text.upper text)
  | t => t

theorem Token.text_upper (t : Token) : t.upper.text = Text.upper t.text := by
  cases t with
  | atom text => rfl
  | _ => decide +kernel

/-! ## Characters -/

namespace Text

variable {c d : Char}

theorem isReserved_of_mem_upperChar (h : d ∈ upperChar c) : isReserved d = isReserved c := by
  by_cases hd : isReserved d = true
  · rw [eq_of_mem_upperChar h hd]
  · by_cases hc : isReserved c = true
    · rw [upperChar_of_isReserved hc, List.mem_singleton] at h
      rw [h]
    · rw [Bool.eq_false_iff.mpr hd, Bool.eq_false_iff.mpr hc]

/-- Folding neither makes nor loses a reserved character, so a test that only these can pass has one
answer before and after. -/
theorem eq_of_mem_upperChar_of_test {p : Char → Bool}
    (hp : ∀ c, p c = true → isReserved c = true) (h : d ∈ upperChar c) : p d = p c := by
  by_cases hd : isReserved d = true
  · rw [eq_of_mem_upperChar h hd]
  · have hc : isReserved c ≠ true := by rwa [← isReserved_of_mem_upperChar h]
    rw [Bool.eq_false_iff.mpr fun hpd => hd (hp d hpd),
      Bool.eq_false_iff.mpr fun hpc => hc (hp c hpc)]

theorem isReserved_of_isBlank (h : isBlank c = true) : isReserved c = true :=
  isReserved_of_isDelimiter (by simp [Token.isDelimiter, h])

theorem isBlank_of_mem_upperChar (h : d ∈ upperChar c) : isBlank d = isBlank c :=
  eq_of_mem_upperChar_of_test (fun _ => isReserved_of_isBlank) h

/-- A character is a given reserved one after folding exactly if it was before. -/
theorem eq_iff_of_mem_upperChar {a : Char} (ha : isReserved a = true) (h : d ∈ upperChar c) :
    d = a ↔ c = a := by
  have htest : (d == a) = (c == a) :=
    eq_of_mem_upperChar_of_test (p := (· == a)) (fun b hb => eq_of_beq hb ▸ ha) h
  rw [← beq_iff_eq, htest, beq_iff_eq]

def upperChars (cs : List Char) : List Char :=
  cs.flatMap upperChar

theorem toList_upper (s : String) : (upper s).toList = upperChars s.toList := by
  rw [upper, String.toList_ofList, upperChars]

theorem upperChars_cons (c : Char) (cs : List Char) :
    upperChars (c :: cs) = upperChar c ++ upperChars cs := rfl

theorem upperChars_append (cs ds : List Char) :
    upperChars (cs ++ ds) = upperChars cs ++ upperChars ds :=
  List.flatMap_append

theorem upperChars_of_isReserved (hc : isReserved c = true) (cs : List Char) :
    upperChars (c :: cs) = c :: upperChars cs := by
  rw [upperChars_cons, upperChar_of_isReserved hc, List.singleton_append]

/-- The first character of a folded text comes from the first of the text. -/
theorem exists_upperChars_cons (c : Char) (cs : List Char) :
    ∃ d ds, upperChar c = d :: ds ∧ upperChars (c :: cs) = d :: (ds ++ upperChars cs) := by
  obtain ⟨d, ds, hds⟩ := List.exists_cons_of_ne_nil (upperChar_ne_nil c)
  exact ⟨d, ds, hds, by rw [upperChars_cons, hds, List.cons_append]⟩

end Text

/-! ## Tokens -/

namespace TokenStream

open Text (upperChar upperChars)

/-- A comment goes on over characters that do not end its line. -/
theorem afterBlanks_comment_append {line : List Char} (hline : '\n' ∉ line) (cs : List Char) :
    afterBlanks true (line ++ cs) = afterBlanks true cs := by
  induction line with
  | nil => rfl
  | cons c line ih =>
      obtain ⟨hc, hrest⟩ := List.ne_and_not_mem_of_not_mem_cons hline
      rw [List.cons_append, afterBlanks_cons, if_pos rfl, bne_iff_ne.mpr hc.symm, ih hrest]

theorem afterBlanks_upperChars (inComment : Bool) (cs : List Char) :
    afterBlanks inComment (upperChars cs) = upperChars (afterBlanks inComment cs) := by
  induction cs generalizing inComment with
  | nil => rfl
  | cons c cs ih =>
      rw [afterBlanks_cons]
      cases inComment with
      | true =>
          rw [if_pos rfl]
          by_cases hc : c = '\n'
          · subst hc
            rw [Text.upperChars_of_isReserved (by decide), afterBlanks_cons, if_pos rfl]
            exact ih false
          · have hline : '\n' ∉ upperChar c := fun hmem =>
              hc ((Text.eq_iff_of_mem_upperChar (by decide) hmem).mp rfl)
            rw [Text.upperChars_cons, afterBlanks_comment_append hline, bne_iff_ne.mpr hc]
            exact ih true
      | false =>
          rw [if_neg Bool.false_ne_true]
          by_cases hblank : Text.isBlank c = true
          · rw [if_pos hblank, Text.upperChars_of_isReserved (Text.isReserved_of_isBlank hblank),
              afterBlanks_cons, if_neg Bool.false_ne_true, if_pos hblank]
            exact ih false
          · rw [if_neg hblank]
            by_cases hsemicolon : c = ';'
            · subst hsemicolon
              rw [Text.upperChars_of_isReserved (by decide), afterBlanks_cons]
              exact ih true
            · -- a token begins here, and its folded form begins with no blank and no semicolon
              obtain ⟨d, ds, hds, hupper⟩ := Text.exists_upperChars_cons c cs
              have hd : d ∈ upperChar c := by simp [hds]
              have hdblank : ¬Text.isBlank d = true := by
                rwa [Text.isBlank_of_mem_upperChar hd]
              have hdsemicolon : d ≠ ';' := fun h =>
                hsemicolon ((Text.eq_iff_of_mem_upperChar (by decide) hd).mp h)
              rw [if_neg (by simpa using hsemicolon), hupper, afterBlanks_cons,
                if_neg Bool.false_ne_true, if_neg hdblank, if_neg (by simpa using hdsemicolon)]

/-- The characters that are tokens by themselves. -/
def isMark (c : Char) : Bool :=
  c == '(' || c == ')' || c == '\'' || c == '.'

theorem isReserved_of_isMark {c : Char} (h : isMark c = true) : Text.isReserved c = true := by
  simp only [isMark, Bool.or_eq_true, beq_iff_eq] at h
  rcases h with ((rfl | rfl) | rfl) | rfl <;> decide

theorem scan_of_not_isMark {c : Char} (h : isMark c = false) (cs : List Char) :
    scan c cs = (.atom (String.ofList (c :: cs.takeWhile fun d => !Token.isDelimiter d)),
      cs.dropWhile fun d => !Token.isDelimiter d) := by
  unfold scan
  split
  · cases h
  · cases h
  · cases h
  · cases h
  · rfl

/-- The token at the front of a folded text is the folded one, and what follows it is folded too. -/
theorem scan_upperChars {c d : Char} {cs ds : List Char} (hc : IsFirst c)
    (h : upperChars (c :: cs) = d :: ds) :
    scan d ds = ((scan c cs).1.upper, upperChars (scan c cs).2) := by
  by_cases hmark : isMark c = true
  · rw [Text.upperChars_of_isReserved (isReserved_of_isMark hmark)] at h
    cases h
    simp only [isMark, Bool.or_eq_true, beq_iff_eq] at hmark
    rcases hmark with ((rfl | rfl) | rfl) | rfl <;> rfl
  · have hscan := scan_of_not_isMark (Bool.eq_false_iff.mpr hmark) cs
    have hlexical := isLexical_scan hc cs
    rw [hscan] at hlexical ⊢
    -- the folded atom, and what stands behind it
    generalize hword : cs.takeWhile (fun d => !Token.isDelimiter d) = word at hlexical ⊢
    generalize hrest : cs.dropWhile (fun d => !Token.isDelimiter d) = rest
    have hsplit : c :: cs = (c :: word) ++ rest := by
      rw [← hword, ← hrest, List.cons_append, List.takeWhile_append_dropWhile]
    obtain ⟨d', ds', -, hupper⟩ := Text.exists_upperChars_cons c word
    rw [hsplit, Text.upperChars_append, hupper, List.cons_append] at h
    obtain ⟨rfl, rfl⟩ := List.cons.inj h
    obtain ⟨-, hdot, hdelim⟩ := Text.isLexical_upper hlexical
    rw [Text.toList_upper, String.toList_ofList, hupper] at hdot hdelim
    have hafter : ∀ e, (upperChars rest).head? = some e → Token.isDelimiter e = true := by
      intro e he
      cases rest with
      | nil => cases he
      | cons a rest =>
          have ha : Token.isDelimiter a = true := by
            have hhead := List.head?_dropWhile_not (fun d => !Token.isDelimiter d) cs
            simpa [hrest] using hhead
          rw [Text.upperChars_of_isReserved (Text.isReserved_of_isDelimiter ha)] at he
          cases he
          exact ha
    rw [scan_atom hdelim (by simpa using hdot) hafter, Token.upper, Text.upper,
      String.toList_ofList, ← upperChars, hupper]

/-- The tokens of a folded text are the folded tokens. -/
theorem tokensOf_upperChars (cs : List Char) :
    tokensOf (upperChars cs) = (tokensOf cs).map Token.upper := by
  induction hlen : cs.length using Nat.strongRecOn generalizing cs with
  | ind n ih =>
      have hfolded := afterBlanks_upperChars false cs
      cases hskip : afterBlanks false cs with
      | nil =>
          rw [hskip] at hfolded
          rw [tokensOf_of_nil hskip, tokensOf_of_nil hfolded, List.map_nil]
      | cons c cs' =>
          have hfirst : IsFirst c := by
            refine (skipBlanks_spec false 0 cs).1 c ?_
            rw [snd_skipBlanks, hskip, List.head?_cons]
          have hle := length_afterBlanks_le false cs
          have hscan := length_scan_le c cs'
          rw [hskip, List.length_cons] at hle
          obtain ⟨d, ds, -, hupper⟩ := Text.exists_upperChars_cons c cs'
          rw [hskip, hupper] at hfolded
          rw [tokensOf_of_cons hfolded, tokensOf_of_cons hskip, scan_upperChars hfirst hupper,
            ih _ (by omega) (scan c cs').2 rfl, List.map_cons]

end TokenStream

/-! ## Readings -/

/-- A number has one spelling in upper case, its own, and a name is folded anyway. -/
theorem Datum.ofAtom_upper (text : String) : ofAtom (Text.upper text) = ofAtom text := by
  rw [ofAtom, ofAtom]
  cases hk : Text.Decimal.readInt64? text.toList with
  | none =>
      rw [Text.readInt64?_upper hk]
      exact congrArg symbol (Symbol.ext_name (Text.upper_upper text))
  | some k =>
      obtain ⟨n, hn, -⟩ := Text.Decimal.readInt64?_eq_some_iff.mp hk
      have hfixed : Text.upperChars text.toList = text.toList :=
        Text.flatMap_upperChar_of_fixed fun c hc =>
          Text.upperChar_of_isReserved (hn.isReserved hc)
      rw [Text.toList_upper, hfixed, hk]

/-- A folded token does what the token does. -/
theorem ReaderState.feed_upper (limit : Option Nat) (state : ReaderState) (t : Token) :
    state.feed limit t.upper = state.feed limit t := by
  cases t with
  | atom text =>
      cases state with
      | closing rev tail stack => rfl
      | awaiting stack =>
          rw [Token.upper, feed_awaiting (by simp) (by simp), feed_awaiting (by simp) (by simp),
            begin, begin, Datum.ofAtom_upper]
  | _ => rfl

def ReadError.foundUpper (e : ReadError) : ReadError :=
  { e with found := e.found.map Text.upper }

/-- Folded tokens lead to the same outcome, as far as it does not quote one of them, and leave the
folded rest. -/
theorem ReaderState.report_feedAll_upper {limit : Option Nat} {state : ReaderState}
    {ts us : List LocatedToken}
    (h : us.map LocatedToken.token = ts.map fun t => t.token.upper) :
    (state.feedAll limit us).report.1.verdict =
        (state.feedAll limit ts).report.1.verdict.mapError ReadError.foundUpper ∧
      (state.feedAll limit us).report.2.map LocatedToken.token =
        (state.feedAll limit ts).report.2.map fun t => t.token.upper := by
  induction ts generalizing state us with
  | nil =>
      obtain rfl := List.map_eq_nil_iff.mp h
      exact ⟨rfl, rfl⟩
  | cons t ts ih =>
      obtain ⟨u, us, rfl, hu, hus⟩ := List.map_eq_cons_iff.mp h
      have hsame : state.feed limit u.token = state.feed limit t.token := by
        rw [hu, feed_upper]
      cases hfeed : state.feed limit t.token with
      | more state' =>
          rw [feedAll_of_more hfeed, feedAll_of_more (hsame.trans hfeed)]
          exact ih hus
      | done d =>
          rw [feedAll_of_done hfeed, feedAll_of_done (hsame.trans hfeed)]
          exact ⟨rfl, hus⟩
      | fail f =>
          rw [feedAll_of_fail hfeed, feedAll_of_fail (hsame.trans hfeed)]
          refine ⟨?_, hus⟩
          simp [FeedOutcome.report, ReadOutcome.verdict, Except.mapError, ReadError.foundUpper, hu,
            Token.text_upper]

theorem readTokens_upper {limit : Option Nat} {ts us : List LocatedToken}
    (h : us.map LocatedToken.token = ts.map fun t => t.token.upper) :
    readTokens limit us = (readTokens limit ts).map (Except.mapError ReadError.foundUpper) := by
  fun_induction readTokens limit ts generalizing us with
  | case1 =>
      obtain rfl := List.map_eq_nil_iff.mp h
      rw [readTokens, List.map_nil]
  | case2 t ts ih =>
      have hne : us ≠ [] := by
        rintro rfl
        cases h
      have hfirst := @ReaderState.report_feedAll_upper limit .start _ _ h
      rw [readTokens_of_ne_nil hne, hfirst.1, ih hfirst.2, List.map_cons]

/-- The verdicts on a folded text are those on the text, with the tokens that they quote folded. -/
theorem verdictsOn_upper (limit : Option Nat) (source : String) :
    verdictsOn limit (Text.upper source) =
      (verdictsOn limit source).map (Except.mapError ReadError.foundUpper) := by
  rw [verdictsOn_eq, verdictsOn_eq, verdictsOf, verdictsOf, Text.toList_upper,
    TokenStream.tokensOf_upperChars]
  refine readTokens_upper ?_
  simp

/-- What reading a text gave, and what reading it in upper case gave: one datum, of which equal
values are made whenever they are made, or two errors of one kind and one message, of which the
second quotes the token of the first in upper case. -/
inductive ReadsAlike : Except ReadError Datum → Except ReadError Datum → Prop
  | datum {d d' : Datum} : d' = d →
      (∀ n n', ((Value.ofDatum d).run n).1.equal ((Value.ofDatum d').run n').1 = true) →
      ReadsAlike (.ok d) (.ok d')
  | fault {e e' : ReadError} : e'.kind = e.kind → e'.message = e.message →
      e'.found = e.found.map Text.upper → ReadsAlike (.error e) (.error e')

theorem readsAlike_of_verdicts {v w : Except ReadError Datum}
    (h : w.mapError ReadError.withoutContext =
      (v.mapError ReadError.withoutContext).mapError ReadError.foundUpper) : ReadsAlike v w := by
  cases v with
  | ok d =>
      cases w with
      | ok d' =>
          cases h
          refine .datum rfl fun n n' => ?_
          exact (Value.describes_ofDatum d n).equal (Value.describes_ofDatum d n')
      | error e' => cases h
  | error e =>
      cases w with
      | ok d' => cases h
      | error e' =>
          have herror : e'.withoutContext = e.withoutContext.foundUpper := Except.error.inj h
          have hkind : e'.withoutContext.kind = e.kind := by rw [herror]; rfl
          have hmessage : e'.withoutContext.message = e.message := by rw [herror]; rfl
          have hfound : e'.withoutContext.found = e.found.map Text.upper := by rw [herror]; rfl
          exact .fault hkind hmessage hfound

/-- Reading a text and reading the same text in upper case give outcomes that agree one by one. -/
theorem reading_commutes_with_folding (limit : Option Nat) (source : String) :
    List.Forall₂ ReadsAlike (Reader.ofSource source limit).outcomes
      (Reader.ofSource (Text.upper source) limit).outcomes := by
  have hverdicts := verdictsOn_upper limit source
  rw [verdictsOn, verdictsOn, Reader.verdicts, Reader.verdicts, List.map_map,
    ← List.forall₂_eq_eq_eq, List.forall₂_map_left_iff, List.forall₂_map_right_iff] at hverdicts
  refine hverdicts.flip.imp fun v w h => readsAlike_of_verdicts ?_
  exact h

end Lisp
