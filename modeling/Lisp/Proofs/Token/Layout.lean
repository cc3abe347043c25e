import Lisp.Proofs.Reader.Location

/-! # How tokens lie in a text

A text is its tokens and the blanks and comments around them. `LaidOut` says what this means without
the tokenizer: nothing else stands in the text, no comment reaches over a token, and no atom could
be longer. A text is laid out in one way only, and this is how a stream takes it apart. -/

namespace Lisp

open Text (byteCount BlankText)

/-! ## Gaps -/

/-- Blanks and comments, each comment up to the end of its line. -/
inductive Text.Gap : List Char → Prop
  | nil : Gap []
  | blank {c : Char} {cs : List Char} : isBlank c = true → Gap cs → Gap (c :: cs)
  | comment {line cs : List Char} : '\n' ∉ line → Gap cs → Gap (';' :: (line ++ '\n' :: cs))

/-- A text holds nothing but blanks and comments, or there is a first character that begins a
token. -/
theorem Text.blankText_or_gap (cs : List Char) :
    BlankText cs ∨
      ∃ gap c rest, Gap gap ∧ TokenStream.IsFirst c ∧ cs = gap ++ c :: rest := by
  induction hlen : cs.length using Nat.strongRecOn generalizing cs with
  | ind n ih =>
      cases cs with
      | nil => exact .inl .nil
      | cons c cs =>
          rw [List.length_cons] at hlen
          by_cases hblank : isBlank c = true
          · rcases ih cs.length (by omega) cs rfl with htext | ⟨gap, d, rest, hgap, hd, rfl⟩
            · exact .inl (.blank hblank htext)
            · exact .inr ⟨c :: gap, d, rest, .blank hblank hgap, hd, rfl⟩
          · by_cases hsemicolon : c = ';'
            · subst c
              by_cases hnewline : '\n' ∈ cs
              · obtain ⟨line, after, rfl, hline⟩ := List.eq_append_cons_of_mem hnewline
                rw [List.length_append, List.length_cons] at hlen
                rcases ih after.length (by omega) after rfl with
                  htext | ⟨gap, d, rest, hgap, hd, rfl⟩
                · exact .inl (.comment hline htext)
                · exact .inr ⟨_, d, rest, .comment hline hgap, hd, by simp⟩
              · exact .inl (.lastComment hnewline)
            · exact .inr ⟨[], c, cs, .nil, ⟨by simpa using hblank, hsemicolon⟩, rfl⟩

namespace TokenStream

theorem skipBlanks_line {line : List Char} (hline : '\n' ∉ line) (offset : Nat) (cs : List Char) :
    skipBlanks true offset (line ++ '\n' :: cs) =
      skipBlanks false (offset + byteCount (line ++ ['\n'])) cs := by
  induction line generalizing offset with
  | nil => rfl
  | cons c line ih =>
      rw [List.mem_cons, not_or] at hline
      have hc : (c != '\n') = true := bne_iff_ne.mpr (Ne.symm hline.1)
      rw [List.cons_append, skipBlanks, if_pos rfl, hc, ih hline.2, List.cons_append,
        Text.byteCount_cons, Nat.add_assoc]

/-- A gap at the front is skipped. -/
theorem skipBlanks_gap {gap : List Char} (hgap : Text.Gap gap) (offset : Nat) (cs : List Char) :
    skipBlanks false offset (gap ++ cs) = skipBlanks false (offset + byteCount gap) cs := by
  induction hgap generalizing offset with
  | nil => rfl
  | blank hblank _ ih =>
      rw [List.cons_append, skipBlanks, if_neg Bool.false_ne_true, if_pos hblank, ih,
        Text.byteCount_cons, Nat.add_assoc]
  | @comment line gap hline _ ih =>
      have hsplit : ';' :: (line ++ '\n' :: gap) ++ cs = ';' :: (line ++ '\n' :: (gap ++ cs)) := by
        simp
      have hcount : byteCount (';' :: (line ++ '\n' :: gap)) =
          ';'.utf8Size + byteCount (line ++ ['\n']) + byteCount gap := by
        rw [Nat.add_assoc, ← Text.byteCount_append, List.append_assoc, Text.byteCount_cons]
        rfl
      rw [hsplit, hcount, skipBlanks, if_neg Bool.false_ne_true, if_neg (by decide),
        if_pos (by decide), skipBlanks_line hline, ih, ← Nat.add_assoc, ← Nat.add_assoc]

theorem next?_gap {gap : List Char} (hgap : Text.Gap gap) (cs : List Char) (offset : Nat) :
    next? ⟨gap ++ cs, offset, none⟩ = next? ⟨cs, offset + byteCount gap, none⟩ := by
  simp only [next?, skipBlanks_gap hgap]

end TokenStream

/-! ## The first token of a text -/

/-- The token goes on no further: an atom ends at a delimiter or with the text. -/
def Token.EndsBefore (rest : List Char) : Token → Prop
  | atom _ => ∀ c, rest.head? = some c → isDelimiter c = true
  | _ => True

/-- The offset right behind the token. -/
def LocatedToken.ending (t : LocatedToken) : Nat :=
  t.offset + t.token.text.utf8ByteSize

/-- The text, which begins at the byte offset, is a gap, then the token at its own offset, and then
`rest`. -/
structure LocatedToken.Leads (t : LocatedToken) (offset : Nat) (cs gap rest : List Char) :
    Prop where
  text_eq : cs = gap ++ (t.token.text.toList ++ rest)
  isGap : Text.Gap gap
  offset_eq : t.offset = offset + byteCount gap
  lexical : t.token.IsLexical
  ends : t.token.EndsBefore rest

namespace TokenStream

variable {s s' : TokenStream} {t : LocatedToken} {offset : Nat} {cs gap rest : List Char}

theorem scan_endsBefore (c : Char) (cs : List Char) :
    (scan c cs).1.EndsBefore (scan c cs).2 := by
  unfold scan
  split
  · trivial
  · trivial
  · trivial
  · trivial
  · intro d hd
    have hstop := List.head?_dropWhile_not (fun d => !Token.isDelimiter d) cs
    simp only at hd
    rw [hd] at hstop
    simpa using hstop

/-- The token that a stream gives leads the text, and the stream after it stands right behind the
token. -/
theorem leads_of_next? (hs : s.pushed = none) (h : s.next? = some (t, s')) :
    ∃ gap, t.Leads s.offset s.rest gap s'.rest ∧ s'.offset = t.ending := by
  obtain ⟨cs, offset, pushed⟩ := s
  obtain rfl : pushed = none := hs
  rcases Text.blankText_or_gap cs with htext | ⟨gap, c, rest, hgap, hc, rfl⟩
  · rw [(next?_eq_none_iff rfl).mpr htext] at h
    cases h
  · rw [next?_gap hgap, next?_first hc] at h
    cases h
    refine ⟨gap, ?_, rfl⟩
    exact {
      text_eq := by rw [← scan_splits]
      isGap := hgap
      offset_eq := rfl
      lexical := isLexical_scan hc rest
      ends := scan_endsBefore c rest }

/-- A token that can stand in a text, and goes on no further, is given where it stands. -/
theorem next?_token {token : Token} (htoken : token.IsLexical) (hends : token.EndsBefore rest)
    (offset : Nat) :
    next? ⟨token.text.toList ++ rest, offset, none⟩ =
      some (⟨token, offset⟩, ⟨rest, offset + token.text.utf8ByteSize, none⟩) := by
  cases token with
  | opening => exact next?_first ⟨by decide, by decide⟩ rest offset
  | closing => exact next?_first ⟨by decide, by decide⟩ rest offset
  | quote => exact next?_first ⟨by decide, by decide⟩ rest offset
  | dot => exact next?_first ⟨by decide, by decide⟩ rest offset
  | atom text =>
      cases gives_atom offset htoken hends with
      | cons hnext hrest =>
          cases hrest
          exact hnext

/-- The token that leads the text is the one that a stream gives. -/
theorem next?_of_leads (h : t.Leads offset cs gap rest) :
    next? ⟨cs, offset, none⟩ = some (t, ⟨rest, t.ending, none⟩) := by
  rw [h.text_eq, next?_gap h.isGap, ← h.offset_eq]
  exact next?_token h.lexical h.ends t.offset

end TokenStream

/-- No token is empty. -/
theorem Token.IsLexical.utf8ByteSize_pos {token : Token} (h : token.IsLexical) :
    0 < token.text.utf8ByteSize := by
  cases token with
  | opening => decide
  | closing => decide
  | quote => decide
  | dot => decide
  | atom text =>
      rw [Token.text, ← Text.byteCount_toList]
      exact Text.byteCount_pos h.1

theorem LocatedToken.Leads.offset_lt_ending {t : LocatedToken} {offset : Nat}
    {cs gap rest : List Char} (h : t.Leads offset cs gap rest) : t.offset < t.ending :=
  Nat.lt_add_of_pos_right h.lexical.utf8ByteSize_pos

/-! ## The whole text -/

/-- The text, which begins at the byte offset, is the tokens at their offsets, with a gap before
each and blanks and comments after the last. -/
inductive LaidOut : Nat → List Char → List LocatedToken → Prop
  | ending {offset : Nat} {cs : List Char} : BlankText cs → LaidOut offset cs []
  | token {offset : Nat} {cs gap rest : List Char} {t : LocatedToken} {ts : List LocatedToken} :
      t.Leads offset cs gap rest → LaidOut t.ending rest ts → LaidOut offset cs (t :: ts)

namespace LaidOut

variable {offset : Nat} {cs : List Char} {t : LocatedToken} {ts : List LocatedToken}

theorem of_located {s : TokenStream} (hs : s.pushed = none) :
    LaidOut s.offset s.rest s.located := by
  fun_induction TokenStream.located s with
  | case1 s h => exact .ending ((TokenStream.next?_eq_none_iff hs).mp h)
  | case2 s t s' h ih =>
      obtain ⟨gap, hleads, hoffset⟩ := TokenStream.leads_of_next? hs h
      have hrest := ih (TokenStream.pushed_of_next? h)
      rw [hoffset] at hrest
      exact .token hleads hrest

theorem located_eq (h : LaidOut offset cs ts) : TokenStream.located ⟨cs, offset, none⟩ = ts := by
  induction h with
  | ending htext =>
      exact TokenStream.located_of_none ((TokenStream.next?_eq_none_iff rfl).mpr htext)
  | token hleads _ ih => rw [TokenStream.located_of_some (TokenStream.next?_of_leads hleads), ih]

/-- A text is laid out in one way, and a stream finds it. -/
theorem iff_located : LaidOut offset cs ts ↔ TokenStream.located ⟨cs, offset, none⟩ = ts := by
  refine ⟨located_eq, ?_⟩
  rintro rfl
  exact of_located (s := ⟨cs, offset, none⟩) rfl

theorem offset_le (h : LaidOut offset cs ts) : ∀ t ∈ ts, offset ≤ t.offset := by
  induction h with
  | ending => simp
  | token hleads _ ih =>
      have hoffset := hleads.offset_eq
      have hending := hleads.offset_lt_ending
      intro u hu
      rcases List.mem_cons.mp hu with rfl | hu
      · omega
      · have := ih u hu
        omega

/-- Each token begins behind the one before. -/
theorem increasing (h : LaidOut offset cs ts) :
    ts.Pairwise fun t t' => t.offset < t'.offset := by
  induction h with
  | ending => exact .nil
  | token hleads hrest ih =>
      refine .cons ?_ ih
      intro u hu
      exact Nat.lt_of_lt_of_le hleads.offset_lt_ending (hrest.offset_le u hu)

end LaidOut

end Lisp
