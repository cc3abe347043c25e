import Lisp.Proofs.Reader.Tokens

/-! # Tokens of joined text

A line end stops a comment, an atom and a run of blanks, so no token reaches over it: the tokens
of two texts joined at a line end are those of the first and then those of the second. Of texts
joined anywhere the tokens of the first come first, unless its last token is an atom, which the
second may prolong. -/

namespace Lisp.TokenStream

/-! ## Tokens without their places -/

/-- What follows the blanks and comments at the front of a text. -/
def afterBlanks (inComment : Bool) (cs : List Char) : List Char :=
  (skipBlanks inComment 0 cs).2

/-- Offsets count what is skipped and decide nothing. -/
theorem snd_skipBlanks_offset (inComment : Bool) (offset offset' : Nat) (cs : List Char) :
    (skipBlanks inComment offset cs).2 = (skipBlanks inComment offset' cs).2 := by
  induction cs generalizing inComment offset offset' with
  | nil => rfl
  | cons c cs ih =>
      simp only [skipBlanks]
      split
      · exact ih _ _ _
      · split
        · exact ih _ _ _
        · split
          · exact ih _ _ _
          · rfl

theorem snd_skipBlanks (inComment : Bool) (offset : Nat) (cs : List Char) :
    (skipBlanks inComment offset cs).2 = afterBlanks inComment cs :=
  snd_skipBlanks_offset inComment offset 0 cs

theorem afterBlanks_cons (inComment : Bool) (c : Char) (cs : List Char) :
    afterBlanks inComment (c :: cs) =
      if inComment then afterBlanks (c != '\n') cs
      else if Text.isBlank c then afterBlanks false cs
      else if c == ';' then afterBlanks true cs
      else c :: cs := by
  rw [afterBlanks, skipBlanks]
  split
  · exact snd_skipBlanks _ _ cs
  · split
    · exact snd_skipBlanks _ _ cs
    · split
      · exact snd_skipBlanks _ _ cs
      · rfl

theorem length_afterBlanks_le (inComment : Bool) (cs : List Char) :
    (afterBlanks inComment cs).length ≤ cs.length :=
  length_skipBlanks_le inComment 0 cs

theorem tokens_of_nil {cs : List Char} (h : afterBlanks false cs = []) (offset : Nat) :
    tokens ⟨cs, offset, none⟩ = [] := by
  have hnext : next? ⟨cs, offset, none⟩ = none := by
    rw [← snd_skipBlanks false offset] at h
    rw [next?]
    simp only
    split
    · rfl
    · rename_i heq
      rw [heq] at h
      cases h
  rw [tokens, located_of_none hnext, List.map_nil]

theorem tokens_of_cons {cs cs' : List Char} {c : Char} (h : afterBlanks false cs = c :: cs')
    (offset : Nat) :
    ∃ offset', tokens ⟨cs, offset, none⟩ =
      (scan c cs').1 :: tokens ⟨(scan c cs').2, offset', none⟩ := by
  rw [← snd_skipBlanks false offset] at h
  have hpair : skipBlanks false offset cs = ((skipBlanks false offset cs).1, c :: cs') :=
    Prod.ext rfl h
  have hnext : next? ⟨cs, offset, none⟩ =
      some (⟨(scan c cs').1, (skipBlanks false offset cs).1⟩,
        ⟨(scan c cs').2, (skipBlanks false offset cs).1 + (scan c cs').1.text.utf8ByteSize,
          none⟩) := by
    rw [next?]
    simp only
    rw [hpair]
  exact ⟨_, by rw [tokens, located_of_some hnext, List.map_cons, tokens]⟩

/-- The tokens of a text do not depend on where it stands. -/
theorem tokens_offset (cs : List Char) (offset offset' : Nat) :
    tokens ⟨cs, offset, none⟩ = tokens ⟨cs, offset', none⟩ := by
  induction hlen : cs.length using Nat.strongRecOn generalizing cs offset offset' with
  | ind n ih =>
      cases hskip : afterBlanks false cs with
      | nil => rw [tokens_of_nil hskip, tokens_of_nil hskip]
      | cons c cs' =>
          obtain ⟨o, ho⟩ := tokens_of_cons hskip offset
          obtain ⟨o', ho'⟩ := tokens_of_cons hskip offset'
          have hle := length_afterBlanks_le false cs
          have hscan := length_scan_le c cs'
          rw [hskip, List.length_cons] at hle
          rw [ho, ho', ih _ (by omega) (scan c cs').2 o o' rfl]

def tokensOf (cs : List Char) : List Token :=
  tokens ⟨cs, 0, none⟩

theorem tokensOf_of_nil {cs : List Char} (h : afterBlanks false cs = []) : tokensOf cs = [] :=
  tokens_of_nil h 0

@[simp] theorem tokensOf_nil : tokensOf [] = [] :=
  tokensOf_of_nil rfl

theorem tokensOf_of_cons {cs cs' : List Char} {c : Char} (h : afterBlanks false cs = c :: cs') :
    tokensOf cs = (scan c cs').1 :: tokensOf (scan c cs').2 := by
  obtain ⟨offset, hoffset⟩ := tokens_of_cons h 0
  rw [tokensOf, hoffset, tokens_offset _ offset 0, tokensOf]

/-! ## Joining -/

section Join

variable {c : Char} {ds : List Char}

/-- A blank that is a line end, or the last character of the text, ends what stands before it. -/
theorem afterBlanks_append (hc : Text.isBlank c = true) (hjoin : c = '\n' ∨ ds = [])
    (inComment : Bool) (cs : List Char) :
    afterBlanks inComment (cs ++ c :: ds) =
      match afterBlanks inComment cs with
      | [] => afterBlanks false ds
      | c' :: cs' => c' :: (cs' ++ c :: ds) := by
  induction cs generalizing inComment with
  | nil =>
      rw [List.nil_append, afterBlanks_cons]
      cases inComment with
      | false => simp only [hc, Bool.false_eq_true, if_false, if_true]; rfl
      | true =>
          rcases hjoin with rfl | rfl
          · rfl
          · cases c != '\n' <;> rfl
  | cons a cs ih =>
      rw [List.cons_append, afterBlanks_cons, afterBlanks_cons]
      split
      · exact ih _
      · split
        · exact ih _
        · split
          · exact ih _
          · rfl

/-- A delimiter behind a token ends it. -/
theorem scan_append (hc : Token.isDelimiter c = true) (a : Char) (cs : List Char) :
    scan a (cs ++ c :: ds) = ((scan a cs).1, (scan a cs).2 ++ c :: ds) := by
  have htake : (cs ++ c :: ds).takeWhile (fun d => !Token.isDelimiter d) =
      cs.takeWhile fun d => !Token.isDelimiter d := by
    rw [List.takeWhile_append]
    split
    · rename_i hall
      rw [(List.takeWhile_prefix _).eq_of_length hall]
      simp [hc]
    · rfl
  have hdrop : (cs ++ c :: ds).dropWhile (fun d => !Token.isDelimiter d) =
      (cs.dropWhile fun d => !Token.isDelimiter d) ++ c :: ds := by
    rw [List.dropWhile_append]
    split
    · rename_i hnone
      rw [List.isEmpty_iff.mp hnone]
      simp [hc]
    · rfl
  unfold scan
  split
  · rfl
  · rfl
  · rfl
  · rfl
  · rw [htake, hdrop]

theorem tokensOf_join (hc : Text.isBlank c = true) (hjoin : c = '\n' ∨ ds = [])
    (cs : List Char) : tokensOf (cs ++ c :: ds) = tokensOf cs ++ tokensOf ds := by
  have hdelim : Token.isDelimiter c = true := by simp [Token.isDelimiter, hc]
  induction hlen : cs.length using Nat.strongRecOn generalizing cs with
  | ind n ih =>
      have happend := afterBlanks_append hc hjoin false cs
      cases hskip : afterBlanks false cs with
      | nil =>
          rw [hskip] at happend
          -- nothing but blanks: the tokens are those behind the join
          rw [tokensOf_of_nil hskip, List.nil_append]
          cases hds : afterBlanks false ds with
          | nil => rw [tokensOf_of_nil hds, tokensOf_of_nil (happend.trans hds)]
          | cons a ds' => rw [tokensOf_of_cons hds, tokensOf_of_cons (happend.trans hds)]
      | cons a cs' =>
          rw [hskip] at happend
          have hle := length_afterBlanks_le false cs
          have hscan := length_scan_le a cs'
          rw [hskip, List.length_cons] at hle
          rw [tokensOf_of_cons happend, tokensOf_of_cons hskip, scan_append hdelim]
          rw [ih _ (by omega) (scan a cs').2 rfl, List.cons_append]

end Join

/-- The tokens of two texts joined at a line end. -/
theorem tokensOf_append_newline (cs ds : List Char) :
    tokensOf (cs ++ '\n' :: ds) = tokensOf cs ++ tokensOf ds :=
  tokensOf_join (by decide) (.inl rfl) cs

/-- A blank at the end of a text is no token. -/
theorem tokensOf_append_blank {c : Char} (hc : Text.isBlank c = true) (cs : List Char) :
    tokensOf (cs ++ [c]) = tokensOf cs := by
  rw [tokensOf_join hc (.inr rfl), tokensOf_nil, List.append_nil]

/-! ## Joining anywhere -/

theorem afterBlanks_append_of_cons {inComment : Bool} {c : Char} {cs cs' : List Char}
    (h : afterBlanks inComment cs = c :: cs') (ds : List Char) :
    afterBlanks inComment (cs ++ ds) = c :: (cs' ++ ds) := by
  induction cs generalizing inComment with
  | nil => cases h
  | cons a cs ih =>
      rw [afterBlanks_cons] at h
      rw [List.cons_append, afterBlanks_cons]
      by_cases hcomment : inComment = true
      · rw [if_pos hcomment] at h ⊢
        exact ih h
      · rw [if_neg hcomment] at h ⊢
        by_cases hblank : Text.isBlank a = true
        · rw [if_pos hblank] at h ⊢
          exact ih h
        · rw [if_neg hblank] at h ⊢
          by_cases hsemicolon : (a == ';') = true
          · rw [if_pos hsemicolon] at h ⊢
            exact ih h
          · rw [if_neg hsemicolon] at h ⊢
            cases h
            rfl

/-- A token that is not an atom at the end of the text does not change with what comes later. -/
theorem scan_append_of_ended {a : Char} {cs : List Char}
    (h : (scan a cs).2 = [] → ∀ text, (scan a cs).1 ≠ .atom text) (ds : List Char) :
    scan a (cs ++ ds) = ((scan a cs).1, (scan a cs).2 ++ ds) := by
  unfold scan at h ⊢
  split
  · rfl
  · rfl
  · rfl
  · rfl
  · have hdrop : cs.dropWhile (fun d => !Token.isDelimiter d) ≠ [] := by
      intro hnil
      simp [hnil] at h
    have htake : (cs.takeWhile fun d => !Token.isDelimiter d).length ≠ cs.length := by
      intro hall
      have hlength := congrArg List.length
        (List.takeWhile_append_dropWhile (p := fun d => !Token.isDelimiter d) (l := cs))
      rw [List.length_append, hall] at hlength
      exact hdrop (List.length_eq_zero_iff.mp (by omega))
    rw [List.takeWhile_append, if_neg htake, List.dropWhile_append]
    simp [hdrop]

/-- The tokens of a text come first in a longer text, unless the last of them is an atom. -/
theorem tokensOf_isPrefix_append {cs : List Char}
    (h : ∀ text, (tokensOf cs).getLast? ≠ some (.atom text)) (ds : List Char) :
    tokensOf cs <+: tokensOf (cs ++ ds) := by
  induction hlen : cs.length using Nat.strongRecOn generalizing cs with
  | ind n ih =>
      cases hskip : afterBlanks false cs with
      | nil =>
          rw [tokensOf_of_nil hskip]
          exact List.nil_prefix
      | cons a cs' =>
          have hle := length_afterBlanks_le false cs
          have hscan := length_scan_le a cs'
          rw [hskip, List.length_cons] at hle
          rw [tokensOf_of_cons hskip] at h
          have hended : (scan a cs').2 = [] → ∀ text, (scan a cs').1 ≠ .atom text := by
            intro hnil text hatom
            exact h text (by simp [hnil, hatom])
          have hrest : ∀ text, (tokensOf (scan a cs').2).getLast? ≠ some (.atom text) := by
            intro text hlast
            exact h text (by rw [List.getLast?_cons, hlast, Option.getD_some])
          rw [tokensOf_of_cons hskip, tokensOf_of_cons (afterBlanks_append_of_cons hskip ds),
            scan_append_of_ended hended]
          exact List.cons_prefix_cons.mpr ⟨rfl, ih _ (by omega) hrest rfl⟩

end Lisp.TokenStream
