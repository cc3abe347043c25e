import Lisp.Proofs.Token.Joined
import Lisp.Proofs.Token.Stream

/-! # Text without tokens

Blanks and comments, said without the tokenizer: a comment runs from a semicolon to the end of its
line, or to the end of the text. A stream has no token left exactly if this is all that is left. -/

namespace Lisp

/-- The text holds blanks and comments only. -/
inductive Text.BlankText : List Char → Prop
  | nil : BlankText []
  | blank {c : Char} {cs : List Char} : isBlank c = true → BlankText cs → BlankText (c :: cs)
  | comment {line cs : List Char} : '\n' ∉ line → BlankText cs →
      BlankText (';' :: (line ++ '\n' :: cs))
  | lastComment {line : List Char} : '\n' ∉ line → BlankText (';' :: line)

namespace Text.BlankText

variable {c : Char} {cs : List Char}

theorem cons_iff : BlankText (c :: cs) ↔
    (isBlank c = true ∧ BlankText cs) ∨
      (c = ';' ∧ ('\n' ∉ cs ∨ ∃ line rest, cs = line ++ '\n' :: rest ∧ '\n' ∉ line ∧
        BlankText rest)) := by
  constructor
  · intro h
    generalize htext : c :: cs = text at h
    cases h with
    | nil => cases htext
    | blank hblank hcs =>
        cases htext
        exact .inl ⟨hblank, hcs⟩
    | comment hline hrest =>
        cases htext
        exact .inr ⟨rfl, .inr ⟨_, _, rfl, hline, hrest⟩⟩
    | lastComment hline =>
        cases htext
        exact .inr ⟨rfl, .inl hline⟩
  · rintro (⟨hblank, hcs⟩ | ⟨rfl, hline | ⟨line, rest, rfl, hline, hrest⟩⟩)
    · exact .blank hblank hcs
    · exact .lastComment hline
    · exact .comment hline hrest

theorem blank_iff (hc : isBlank c = true) : BlankText (c :: cs) ↔ BlankText cs := by
  have hne : c ≠ ';' := by
    rintro rfl
    exact absurd hc (by decide)
  rw [cons_iff]
  simp [hc, hne]

theorem not_of_isFirst (hc : TokenStream.IsFirst c) : ¬ BlankText (c :: cs) := by
  rw [cons_iff]
  simp [hc.1, hc.2]

theorem comment_iff : BlankText (';' :: cs) ↔
    '\n' ∉ cs ∨ ∃ line rest, cs = line ++ '\n' :: rest ∧ '\n' ∉ line ∧ BlankText rest := by
  rw [cons_iff]
  simp [show isBlank ';' = false by decide]

/-- A line end ends the comment that it stands in. -/
theorem comment_newline_iff : BlankText (';' :: '\n' :: cs) ↔ BlankText cs := by
  rw [comment_iff]
  constructor
  · rintro (hline | ⟨line, rest, htext, hline, hrest⟩)
    · exact absurd List.mem_cons_self hline
    · cases line with
      | nil =>
          cases htext
          exact hrest
      | cons d line =>
          cases htext
          exact absurd List.mem_cons_self hline
  · intro hcs
    exact .inr ⟨[], cs, rfl, List.not_mem_nil, hcs⟩

/-- Any other character goes on with it. -/
theorem comment_cons_iff (hc : c ≠ '\n') : BlankText (';' :: c :: cs) ↔ BlankText (';' :: cs) := by
  rw [comment_iff, comment_iff]
  constructor
  · rintro (hline | ⟨line, rest, htext, hline, hrest⟩)
    · exact .inl fun hmem => hline (List.mem_cons_of_mem c hmem)
    · cases line with
      | nil =>
          cases htext
          exact absurd rfl hc
      | cons d line =>
          cases htext
          exact .inr ⟨line, rest, rfl, fun hmem => hline (List.mem_cons_of_mem c hmem), hrest⟩
  · rintro (hline | ⟨line, rest, rfl, hline, hrest⟩)
    · exact .inl (by simp [hc.symm, hline])
    · exact .inr ⟨c :: line, rest, rfl, by simp [hc.symm, hline], hrest⟩

end Text.BlankText

namespace TokenStream

open Text (BlankText)

/-- Skipping blanks comes to the end exactly on a text of blanks and comments; a text that starts
inside a comment is one with the semicolon in front. -/
theorem afterBlanks_eq_nil_iff (cs : List Char) :
    (afterBlanks false cs = [] ↔ BlankText cs) ∧
      (afterBlanks true cs = [] ↔ BlankText (';' :: cs)) := by
  induction cs with
  | nil =>
      refine ⟨iff_of_true rfl .nil, iff_of_true rfl (.lastComment List.not_mem_nil)⟩
  | cons c cs ih =>
      constructor
      · rw [afterBlanks_cons, if_neg Bool.false_ne_true]
        split
        · rename_i hblank
          rw [ih.1, BlankText.blank_iff hblank]
        · split
          · rename_i hsemicolon
            rw [ih.2, eq_of_beq hsemicolon]
          · rename_i hblank hsemicolon
            refine iff_of_false (List.cons_ne_nil c cs) (BlankText.not_of_isFirst ?_)
            exact ⟨Bool.eq_false_iff.mpr hblank, fun h => hsemicolon (beq_iff_eq.mpr h)⟩
      · rw [afterBlanks_cons, if_pos rfl]
        by_cases hc : c = '\n'
        · subst c
          rw [BlankText.comment_newline_iff]
          exact ih.1
        · rw [BlankText.comment_cons_iff hc, bne_iff_ne.mpr hc]
          exact ih.2

theorem next?_eq_none_iff {s : TokenStream} (hs : s.pushed = none) :
    s.next? = none ↔ BlankText s.rest := by
  rw [← (afterBlanks_eq_nil_iff s.rest).1, ← snd_skipBlanks false s.offset, next?, hs]
  simp only
  split
  · rename_i hskip
    simp [hskip]
  · rename_i hskip
    simp [hskip]

end TokenStream

end Lisp
