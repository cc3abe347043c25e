import Lisp.Text.Excerpt
import Mathlib.Data.List.TakeDrop

/-! # What an excerpt shows

An excerpt is asked for by a byte offset, which may lie inside a character or behind the text, and
shows characters. `IsPlace` says which character is meant, and `Shows` what is to be seen around it:
one window of the text, on one line, with a mark at each side where text is left out. -/

namespace Lisp.Text

/-! ## Bytes and characters -/

def byteCount (cs : List Char) : Nat :=
  (String.ofList cs).utf8ByteSize

@[simp] theorem byteCount_nil : byteCount [] = 0 := rfl

theorem byteCount_append (cs ds : List Char) : byteCount (cs ++ ds) = byteCount cs + byteCount ds := by
  rw [byteCount, String.ofList_append, String.utf8ByteSize_append, byteCount, byteCount]

@[simp] theorem byteCount_cons (c : Char) (cs : List Char) :
    byteCount (c :: cs) = c.utf8Size + byteCount cs := by
  rw [← List.singleton_append, byteCount_append]
  simp [byteCount]

theorem byteCount_toList (s : String) : byteCount s.toList = s.utf8ByteSize := by
  rw [byteCount, String.ofList_toList]

theorem byteCount_pos {cs : List Char} (h : cs ≠ []) : 0 < byteCount cs := by
  cases cs with
  | nil => exact absurd rfl h
  | cons c cs =>
      have := c.utf8Size_pos
      rw [byteCount_cons]
      omega

/-- The first `k` characters of the text are those that begin before the byte offset. -/
structure IsPlace (cs : List Char) (offset k : Nat) : Prop where
  le : k ≤ cs.length
  before : ∀ i < k, byteCount (cs.take i) < offset
  behind : ∀ i, k ≤ i → i < cs.length → offset ≤ byteCount (cs.take i)

theorem IsPlace.unique {cs : List Char} {offset k k' : Nat} (h : IsPlace cs offset k)
    (h' : IsPlace cs offset k') : k = k' := by
  rcases Nat.lt_trichotomy k k' with hlt | heq | hlt
  · have hbefore := h'.before k hlt
    have hbehind := h.behind k (Nat.le_refl k) (Nat.lt_of_lt_of_le hlt h'.le)
    omega
  · exact heq
  · have hbefore := h.before k' hlt
    have hbehind := h'.behind k' (Nat.le_refl k') (Nat.lt_of_lt_of_le hlt h.le)
    omega

theorem isPlace_charsBefore (cs : List Char) (offset : Nat) :
    IsPlace cs offset (charsBefore cs offset) := by
  induction cs generalizing offset with
  | nil => exact ⟨Nat.le_refl 0, nofun, nofun⟩
  | cons c cs ih =>
      rw [charsBefore]
      split
      · rename_i hzero
        exact ⟨Nat.zero_le _, nofun, fun i _ _ => by omega⟩
      · rename_i hpos
        obtain ⟨hle, hbefore, hbehind⟩ := ih (offset - c.utf8Size)
        refine ⟨Nat.succ_le_succ hle, ?_, ?_⟩
        · intro i hi
          cases i with
          | zero => simpa using Nat.pos_of_ne_zero hpos
          | succ j =>
              have hj := hbefore j (Nat.lt_of_succ_lt_succ hi)
              rw [List.take_succ_cons, byteCount_cons]
              omega
        · intro i hk hi
          cases i with
          | zero => cases hk
          | succ j =>
              have hj := hbehind j (Nat.le_of_succ_le_succ hk) (Nat.lt_of_succ_lt_succ hi)
              rw [List.take_succ_cons, byteCount_cons]
              omega

/-- The offset at which a part of the text begins is the place of its first character. -/
theorem isPlace_append (before after : List Char) :
    IsPlace (before ++ after) (byteCount before) before.length := by
  refine ⟨by simp, ?_, ?_⟩
  · intro i hi
    -- characters of `before` are left behind the first `i`, and they take up bytes
    have hsplit := congrArg byteCount (List.take_append_drop i before)
    have hpos : 0 < byteCount (before.drop i) := byteCount_pos (by simpa using hi)
    rw [byteCount_append] at hsplit
    rw [List.take_append_of_le_length (Nat.le_of_lt hi)]
    omega
  · intro i hi _
    rw [List.take_append, List.take_of_length_le hi, byteCount_append]
    exact Nat.le_add_right _ _

/-! ## The window -/

namespace Excerpt

/-- The second text is the first on one line: each newline is written as a backslash and `n`, each
carriage return is left out, and every other character stays. -/
inductive OnOneLine : List Char → List Char → Prop
  | nil : OnOneLine [] []
  | newline {cs line : List Char} : OnOneLine cs line → OnOneLine ('\n' :: cs) ('\\' :: 'n' :: line)
  | carriageReturn {cs line : List Char} : OnOneLine cs line → OnOneLine ('\r' :: cs) line
  | other {c : Char} {cs line : List Char} : c ≠ '\n' → c ≠ '\r' → OnOneLine cs line →
      OnOneLine (c :: cs) (c :: line)

theorem onOneLine_flatten (cs : List Char) : OnOneLine cs (cs.flatMap flatten) := by
  induction cs with
  | nil => exact .nil
  | cons c cs ih =>
      rw [List.flatMap_cons]
      unfold flatten
      split
      · exact .newline ih
      · exact .carriageReturn ih
      · rename_i hnewline hreturn
        exact .other hnewline hreturn ih

theorem OnOneLine.not_mem {cs line : List Char} (h : OnOneLine cs line) :
    '\n' ∉ line ∧ '\r' ∉ line := by
  induction h with
  | nil => simp
  | newline _ ih => simpa using ih
  | carriageReturn _ ih => exact ih
  | other hnewline hreturn _ ih => simpa [hnewline.symm, hreturn.symm] using ih

/-- The mark for text left out, if any was. -/
def mark (cs : List Char) : List Char :=
  if cs = [] then [] else "[...]".toList

theorem mark_eq {cs : List Char} {shown : Prop} [Decidable shown] (h : shown ↔ cs ≠ []) :
    (if shown then ellipsis else "").toList = mark cs := by
  by_cases hcs : cs = [] <;> simp [h, hcs, mark, ellipsis]

theorem not_mem_mark (cs : List Char) : '\n' ∉ mark cs ∧ '\r' ∉ mark cs := by
  unfold mark
  split
  · simp
  · decide

/-- The context shows the window of the text around its `k`-th character that has `before` and
`after` on its two sides. -/
structure ShowsWindow (source : List Char) (k : Nat) (context : String)
    (before window after : List Char) : Prop where
  source_eq : source = before ++ window ++ after
  starts : before.length = k - 20
  at_most : window.length ≤ 100
  /-- The window ends early at the end of the text only. -/
  full : after ≠ [] → window.length = 100
  holds_place : k < source.length → before.length ≤ k ∧ k < before.length + window.length
  context_eq : ∃ line, OnOneLine window line ∧
    context.toList = mark before ++ line ++ mark after
  one_line : '\n' ∉ context.toList ∧ '\r' ∉ context.toList

/-- The context shows a window of the text around its `k`-th character. -/
def Shows (source : List Char) (k : Nat) (context : String) : Prop :=
  ∃ before window after, ShowsWindow source k context before window after

end Excerpt

open Excerpt

theorem toList_excerpt (source : String) (offset : Nat) :
    (excerpt source offset).toList =
      let k := charsBefore source.toList offset
      mark (source.toList.take (k - 20)) ++
        ((source.toList.drop (k - 20)).take 100).flatMap flatten ++
        mark ((source.toList.drop (k - 20)).drop 100) := by
  have hk := (isPlace_charsBefore source.toList offset).le
  simp only [excerpt, String.toList_append, String.toList_ofList]
  generalize source.toList = cs at hk ⊢
  generalize charsBefore cs offset = k at hk ⊢
  have hbefore : 0 < start k ↔ cs.take (k - 20) ≠ [] := by
    rw [Ne, List.take_eq_nil_iff, ← List.length_eq_zero_iff, start, leadIn]
    omega
  have hafter : start k + (window cs k).length < cs.length ↔
      (cs.drop (k - 20)).drop 100 ≠ [] := by
    simp only [window, start, leadIn, width, Ne, List.drop_drop, List.drop_eq_nil_iff,
      List.length_take, List.length_drop]
    omega
  rw [mark_eq hbefore, mark_eq hafter]
  rfl

/-- An excerpt at any byte offset shows the text around the character that the offset means. -/
theorem shows_excerpt (source : String) {offset k : Nat} (hk : IsPlace source.toList offset k) :
    Shows source.toList k (excerpt source offset) := by
  obtain rfl := hk.unique (isPlace_charsBefore source.toList offset)
  have hcontext := toList_excerpt source offset
  have hline := onOneLine_flatten
    ((source.toList.drop (charsBefore source.toList offset - 20)).take 100)
  have hle := hk.le
  generalize charsBefore source.toList offset = k at hk hcontext hline hle ⊢
  refine ⟨source.toList.take (k - 20), (source.toList.drop (k - 20)).take 100,
    (source.toList.drop (k - 20)).drop 100, ?_⟩
  exact {
    source_eq := by rw [List.append_assoc, List.take_append_drop, List.take_append_drop]
    starts := by rw [List.length_take]; omega
    at_most := List.length_take_le 100 _
    full := by
      intro hafter
      rw [Ne, List.drop_eq_nil_iff] at hafter
      rw [List.length_take]
      omega
    holds_place := by
      intro hinside
      simp only [List.length_take, List.length_drop]
      omega
    context_eq := ⟨_, hline, hcontext⟩
    one_line := by
      have hbefore := not_mem_mark (source.toList.take (k - 20))
      have hafter := not_mem_mark ((source.toList.drop (k - 20)).drop 100)
      rw [hcontext]
      simp only [List.mem_append, not_or]
      exact ⟨⟨⟨hbefore.1, hline.not_mem.1⟩, hafter.1⟩, ⟨hbefore.2, hline.not_mem.2⟩, hafter.2⟩ }

end Lisp.Text
