import Lisp.Token.Stream

/-! # Streams over written text

How the front of a text decides the next token, what every atom looks like, and how the offset
keeps pace with the text. `TokenStream.Gives` is the relation between a stream, tokens taken from
it, and the stream after them. -/

namespace Lisp

/-- The token can stand in a text: an atom is not empty, does not begin with a dot and holds no
delimiter. -/
def Token.IsLexical : Token → Prop
  | atom text => text.toList ≠ [] ∧ text.toList.head? ≠ some '.' ∧
      ∀ c ∈ text.toList, isDelimiter c = false
  | _ => True

instance : (t : Token) → Decidable t.IsLexical
  | .atom text =>
    decidable_of_iff (text.toList ≠ [] ∧ text.toList.head? ≠ some '.' ∧
      text.toList.all (fun c => !Token.isDelimiter c) = true) (by simp [Token.IsLexical])
  | .opening | .closing | .quote | .dot => inferInstanceAs (Decidable True)

namespace TokenStream

/-! ## The next token -/

/-- A character that begins a token. -/
def IsFirst (c : Char) : Prop :=
  Text.isBlank c = false ∧ c ≠ ';'

theorem next?_blank {c : Char} (hc : Text.isBlank c = true) (cs : List Char) (offset : Nat) :
    next? ⟨c :: cs, offset, none⟩ = next? ⟨cs, offset + c.utf8Size, none⟩ := by
  simp [next?, skipBlanks, hc]

theorem next?_first {c : Char} (hc : IsFirst c) (cs : List Char) (offset : Nat) :
    next? ⟨c :: cs, offset, none⟩ =
      some (⟨(scan c cs).1, offset⟩,
        ⟨(scan c cs).2, offset + (scan c cs).1.text.utf8ByteSize, none⟩) := by
  simp [next?, skipBlanks, hc.1, hc.2]

/-- A text without delimiters that does not begin with a dot is one atom, up to a delimiter or the
end. -/
theorem scan_atom {c : Char} {cs after : List Char}
    (hdelim : ∀ d ∈ c :: cs, Token.isDelimiter d = false) (hdot : c ≠ '.')
    (hafter : ∀ d, after.head? = some d → Token.isDelimiter d = true) :
    scan c (cs ++ after) = (.atom (String.ofList (c :: cs)), after) := by
  have hc := hdelim c (by simp)
  have hcs : ∀ d ∈ cs, (!Token.isDelimiter d) = true := fun d hd => by
    rw [hdelim d (by simp [hd])]
    rfl
  have hstop : after.takeWhile (fun d => !Token.isDelimiter d) = [] := by
    cases after with
    | nil => rfl
    | cons d after => simp [hafter d rfl]
  have hdrop : after.dropWhile (fun d => !Token.isDelimiter d) = after := by
    cases after with
    | nil => rfl
    | cons d after => simp [hafter d rfl]
  unfold scan
  split
  · exact absurd hc (by decide)
  · exact absurd hc (by decide)
  · exact absurd hc (by decide)
  · exact absurd rfl hdot
  · rw [List.takeWhile_append_of_pos hcs, List.dropWhile_append_of_pos hcs, hstop, hdrop,
      List.append_nil]

theorem isLexical_scan {c : Char} (hc : IsFirst c) (cs : List Char) :
    (scan c cs).1.IsLexical := by
  unfold scan
  split
  · trivial
  · trivial
  · trivial
  · trivial
  · rename_i hopening hclosing hquote hdot
    simp only [Token.IsLexical, String.toList_ofList]
    refine ⟨by simp, by simpa using hdot, ?_⟩
    intro d hd
    rcases List.mem_cons.mp hd with rfl | hd
    · simp only [Token.isDelimiter, hc.1, Bool.false_or, Bool.or_eq_false_iff, beq_eq_false_iff_ne]
      exact ⟨⟨⟨hopening, hclosing⟩, hquote⟩, hc.2⟩
    · simpa using List.all_eq_true.mp List.all_takeWhile d hd

/-! ## Offsets -/

theorem utf8ByteSize_ofList_cons (c : Char) (cs : List Char) :
    (String.ofList (c :: cs)).utf8ByteSize = c.utf8Size + (String.ofList cs).utf8ByteSize := by
  rw [← List.singleton_append, String.ofList_append]
  simp

theorem utf8ByteSize_scan (c : Char) (cs : List Char) :
    (scan c cs).1.text.utf8ByteSize + (String.ofList (scan c cs).2).utf8ByteSize =
      (String.ofList (c :: cs)).utf8ByteSize := by
  rw [utf8ByteSize_ofList_cons]
  unfold scan
  split
  · rfl
  · rfl
  · rfl
  · rfl
  · rw [Token.text, utf8ByteSize_ofList_cons, Nat.add_assoc, ← String.utf8ByteSize_append,
      ← String.ofList_append, List.takeWhile_append_dropWhile]

/-- What is left after the blanks begins with the first character of a token, and the offset has
moved by what was skipped. -/
theorem skipBlanks_spec (inComment : Bool) (offset : Nat) (cs : List Char) :
    (∀ c, (skipBlanks inComment offset cs).2.head? = some c → IsFirst c) ∧
      (skipBlanks inComment offset cs).1 +
          (String.ofList (skipBlanks inComment offset cs).2).utf8ByteSize =
        offset + (String.ofList cs).utf8ByteSize := by
  induction cs generalizing inComment offset with
  | nil => simp [skipBlanks]
  | cons c cs ih =>
      have hskip : ∀ b, (∀ d, (skipBlanks b (offset + c.utf8Size) cs).2.head? = some d → IsFirst d) ∧
          (skipBlanks b (offset + c.utf8Size) cs).1 +
              (String.ofList (skipBlanks b (offset + c.utf8Size) cs).2).utf8ByteSize =
            offset + (String.ofList (c :: cs)).utf8ByteSize := by
        intro b
        rw [utf8ByteSize_ofList_cons, ← Nat.add_assoc]
        exact ih b (offset + c.utf8Size)
      simp only [skipBlanks]
      split
      · exact hskip _
      · split
        · exact hskip _
        · split
          · exact hskip _
          · rename_i hblank hsemicolon
            refine ⟨fun d hd => ?_, rfl⟩
            obtain rfl : c = d := by simpa using hd
            exact ⟨by simpa using hblank, by simpa using hsemicolon⟩

/-- A token taken from the text can stand there, and the offset has moved by what was taken. -/
theorem next?_spec {s s' : TokenStream} {t : LocatedToken} (hs : s.pushed = none)
    (h : s.next? = some (t, s')) :
    t.token.IsLexical ∧
      s'.offset + (String.ofList s'.rest).utf8ByteSize =
        s.offset + (String.ofList s.rest).utf8ByteSize := by
  have hskip := skipBlanks_spec false s.offset s.rest
  rw [next?] at h
  rw [hs] at h
  simp only at h
  split at h
  · cases h
  · rename_i offset c cs heq
    rw [heq] at hskip
    cases h
    refine ⟨isLexical_scan (hskip.1 c rfl) cs, ?_⟩
    have hscan := utf8ByteSize_scan c cs
    simp only at hskip ⊢
    omega

/-! ## Tokens taken one after the other -/

/-- The stream gives the tokens and then is the second stream. -/
inductive Gives : TokenStream → List LocatedToken → TokenStream → Prop
  | nil (s : TokenStream) : Gives s [] s
  | cons {s s' s'' : TokenStream} {t : LocatedToken} {ts : List LocatedToken} :
      s.next? = some (t, s') → Gives s' ts s'' → Gives s (t :: ts) s''

theorem Gives.append {s s' s'' : TokenStream} {ts us : List LocatedToken} (h : Gives s ts s')
    (h' : Gives s' us s'') : Gives s (ts ++ us) s'' := by
  induction h with
  | nil => exact h'
  | cons hnext _ ih => exact .cons hnext (ih h')

theorem Gives.offset_eq {s s' : TokenStream} {ts : List LocatedToken} (h : Gives s ts s')
    (hs : s.pushed = none) :
    s'.offset + (String.ofList s'.rest).utf8ByteSize =
      s.offset + (String.ofList s.rest).utf8ByteSize := by
  induction h with
  | nil => rfl
  | cons hnext _ ih => exact (ih (pushed_of_next? hnext)).trans (next?_spec hs hnext).2

/-! ### The tokens of a text, by its first characters -/

/-- A blank in front changes nothing but offsets. -/
theorem Gives.blank {c : Char} (hc : Text.isBlank c = true) {cs : List Char} {offset : Nat}
    {ts : List LocatedToken} {s : TokenStream} (hne : ts ≠ [])
    (h : Gives ⟨cs, offset + c.utf8Size, none⟩ ts s) : Gives ⟨c :: cs, offset, none⟩ ts s := by
  cases h with
  | nil => exact absurd rfl hne
  | cons hnext hrest => exact .cons ((next?_blank hc cs offset).trans hnext) hrest

section First

variable (cs : List Char) (offset : Nat)

theorem gives_opening : Gives ⟨'(' :: cs, offset, none⟩ [⟨.opening, offset⟩] ⟨cs, offset + 1, none⟩ :=
  .cons (next?_first ⟨by decide, by decide⟩ cs offset) (.nil _)

theorem gives_closing : Gives ⟨')' :: cs, offset, none⟩ [⟨.closing, offset⟩] ⟨cs, offset + 1, none⟩ :=
  .cons (next?_first ⟨by decide, by decide⟩ cs offset) (.nil _)

theorem gives_dot : Gives ⟨'.' :: cs, offset, none⟩ [⟨.dot, offset⟩] ⟨cs, offset + 1, none⟩ :=
  .cons (next?_first ⟨by decide, by decide⟩ cs offset) (.nil _)

theorem gives_atom {text : String} (htext : (Token.atom text).IsLexical) {after : List Char}
    (hafter : ∀ d, after.head? = some d → Token.isDelimiter d = true) :
    Gives ⟨text.toList ++ after, offset, none⟩ [⟨.atom text, offset⟩]
      ⟨after, offset + text.utf8ByteSize, none⟩ := by
  obtain ⟨hne, hdot, hdelim⟩ := htext
  obtain ⟨c, cs, hcs⟩ := List.exists_cons_of_ne_nil hne
  rw [hcs] at hdot hdelim ⊢
  have hfirst : IsFirst c := by
    have hc := hdelim c (by simp)
    simp only [Token.isDelimiter, Bool.or_eq_false_iff, beq_eq_false_iff_ne] at hc
    exact ⟨hc.1.1.1.1, hc.2⟩
  have hscan := scan_atom hdelim (by simpa using hdot) hafter
  rw [← hcs, String.ofList_toList] at hscan
  have hnext := next?_first hfirst (cs ++ after) offset
  rw [hscan] at hnext
  exact .cons hnext (.nil _)

end First

end TokenStream

end Lisp
