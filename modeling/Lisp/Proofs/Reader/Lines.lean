import Lisp.Repl
import Lisp.Proofs.Reader.Composition
import Mathlib.Data.List.TakeWhile

/-! # Reading line by line

No token reaches over a line end, so the tokens of a text are those of its lines. What the lines
of a text amount to is therefore a function of the tokens of each (`verdictsOf`), whatever ends
the lines have and wherever expressions are cut. -/

namespace Lisp

open TokenStream

/-! ## The tokens of lines -/

def tokensOfLines (lines : List String) : List Token :=
  lines.flatMap fun line => tokensOf line.toList

@[simp] theorem tokensOfLines_nil : tokensOfLines [] = [] := rfl

@[simp] theorem tokensOfLines_cons (line : String) (lines : List String) :
    tokensOfLines (line :: lines) = tokensOf line.toList ++ tokensOfLines lines := rfl

@[simp] theorem tokensOfLines_append (lines lines' : List String) :
    tokensOfLines (lines ++ lines') = tokensOfLines lines ++ tokensOfLines lines' :=
  List.flatMap_append

theorem ReplEntry.toList_block_cons (line : String) (lines : List String) :
    (block (line :: lines)).toList = line.toList ++ '\n' :: (block lines).toList := by
  simp [block, String.join_cons]

theorem tokensOf_block (lines : List String) :
    tokensOf (ReplEntry.block lines).toList = tokensOfLines lines := by
  induction lines with
  | nil => exact tokensOf_nil
  | cons line lines ih =>
      rw [ReplEntry.toList_block_cons, tokensOf_append_newline, ih, tokensOfLines_cons]

/-- The carriage return that belongs to the line's end is a blank. -/
theorem tokensOf_endLine (rev : List Char) :
    tokensOf (Text.endLine rev).toList = tokensOf rev.reverse := by
  unfold Text.endLine
  split
  · rw [String.toList_ofList, List.reverse_cons, tokensOf_append_blank (by decide)]
  · rw [String.toList_ofList]

theorem tokensOfLines_splitLines (rev cs : List Char) :
    tokensOfLines (Text.splitLines rev cs) = tokensOf (rev.reverse ++ cs) := by
  fun_induction Text.splitLines rev cs with
  | case1 rev hrev =>
      rw [List.isEmpty_iff.mp hrev]
      exact tokensOf_nil.symm
  | case2 rev hrev => simp
  | case3 rev cs ih =>
      rw [tokensOfLines_cons, ih, tokensOf_endLine, tokensOf_append_newline, List.reverse_nil,
        List.nil_append]
  | case4 rev c cs hc ih => simpa using ih

theorem tokensOfLines_lines (text : String) :
    tokensOfLines (Text.lines text) = tokensOf text.toList :=
  tokensOfLines_splitLines [] text.toList

theorem afterBlanks_of_blank {cs : List Char} (h : ∀ c ∈ cs, Text.isBlank c = true) :
    afterBlanks false cs = [] := by
  induction cs with
  | nil => rfl
  | cons c cs ih =>
      have hc : Text.isBlank c = true := h c (by simp)
      simpa [afterBlanks_cons, hc] using ih fun d hd => h d (by simp [hd])

/-- A line of blanks has no tokens. -/
theorem tokensOf_of_trim {line : String} (h : Text.trim line = "") : tokensOf line.toList = [] := by
  have hrest : line.toList.dropWhile Text.isBlank = [] := by
    have hreverse := congrArg String.toList h
    rw [Text.trim, String.toList_ofList] at hreverse
    have hblank := List.dropWhile_eq_nil_iff.mp (List.reverse_eq_nil_iff.mp hreverse)
    cases hcs : line.toList.dropWhile Text.isBlank with
    | nil => rfl
    | cons c cs =>
        have hc : Text.isBlank c = true := hblank c (by simp [hcs])
        have hhead := List.head?_dropWhile_not Text.isBlank line.toList
        simp [hcs, hc] at hhead
  exact tokensOf_of_nil (afterBlanks_of_blank (List.dropWhile_eq_nil_iff.mp hrest))

/-! ## Verdicts on tokens -/

/-- The verdicts of all reads over tokens, wherever they stand. -/
def verdictsOf (limit : Option Nat) (ts : List Token) : List (Except ReadError Datum) :=
  readTokens limit (ts.map fun t => ⟨t, 0⟩)

theorem verdictsOn_eq (limit : Option Nat) (text : String) :
    verdictsOn limit text = verdictsOf limit (tokensOf text.toList) := by
  rw [verdictsOn, Reader.verdicts_eq, verdictsOf]
  refine readTokens_congr ?_
  rw [List.map_map]
  exact (List.map_id' _).symm

section Later

variable {limit : Option Nat} {ts : List Token}

/-- What comes after tokens that end between two expressions is read by itself. -/
theorem verdictsOf_append (h : ∀ v ∈ verdictsOf limit ts, isIncomplete v = false)
    (us : List Token) :
    verdictsOf limit (ts ++ us) = verdictsOf limit ts ++ verdictsOf limit us := by
  rw [verdictsOf, verdictsOf, List.map_append]
  rcases readTokens_append limit (ts.map fun t => ⟨t, 0⟩) with hsettled | ⟨before, last, hunsettled⟩
  · exact hsettled.append _
  · have hlast := h last (by simp [verdictsOf, hunsettled.eq])
    rw [hunsettled.incomplete] at hlast
    cases hlast

/-- A verdict other than that of an unfinished expression stands whatever comes later. -/
theorem mem_verdictsOf_append {v : Except ReadError Datum} (hv : v ∈ verdictsOf limit ts)
    (hcomplete : isIncomplete v = false) (us : List Token) : v ∈ verdictsOf limit (ts ++ us) := by
  rw [verdictsOf, List.map_append]
  rcases readTokens_append limit (ts.map fun t => ⟨t, 0⟩) with hsettled | ⟨before, last, hunsettled⟩
  · rw [hsettled.append]
    exact List.mem_append_left _ hv
  · rw [verdictsOf, hunsettled.eq] at hv
    rcases List.mem_append.mp hv with hv | hv
    · exact (hunsettled.append _).subset hv
    · rw [List.mem_singleton.mp hv, hunsettled.incomplete] at hcomplete
      cases hcomplete

end Later

/-! ## All of a text at once -/

/-- Results taken together are all values, or the first error among them. -/
theorem mapM_id_cases {ε α : Type} (xs : List (Except ε α)) :
    (∃ as : List α, xs.mapM id = .ok as ∧ xs = as.map .ok) ∨
      ∃ e, xs.mapM id = .error e ∧ .error e ∈ xs := by
  induction xs with
  | nil => exact .inl ⟨[], rfl, rfl⟩
  | cons x xs ih =>
      rw [List.mapM_cons]
      cases x with
      | error e => exact .inr ⟨e, rfl, by simp⟩
      | ok a =>
          rcases ih with ⟨as, hall, rfl⟩ | ⟨e, hall, he⟩
          · exact .inl ⟨a :: as, by rw [hall]; rfl, rfl⟩
          · exact .inr ⟨e, by rw [hall]; rfl, by simp [he]⟩

/-- The error is the first one if only values stand before it. -/
theorem mapM_id_eq_error_iff {ε α : Type} {xs : List (Except ε α)} {e : ε} :
    xs.mapM id = .error e ↔ ∃ (as : List α) (rest : List (Except ε α)),
      xs = as.map .ok ++ .error e :: rest := by
  constructor
  · intro h
    induction xs with
    | nil => cases h
    | cons x xs ih =>
        cases x with
        | error e' =>
            cases h
            exact ⟨[], xs, rfl⟩
        | ok a =>
            rcases mapM_id_cases xs with ⟨as, hall, -⟩ | ⟨e', hall, -⟩
            · rw [List.mapM_cons, hall] at h
              cases h
            · rw [List.mapM_cons, hall] at h
              cases h
              obtain ⟨as, rest, rfl⟩ := ih hall
              exact ⟨a :: as, rest, rfl⟩
  · rintro ⟨as, rest, rfl⟩
    induction as with
    | nil => rfl
    | cons a as ih =>
        rw [List.map_cons, List.cons_append, List.mapM_cons, ih]
        rfl

theorem eq_map_ok_of_withoutContext {xs : List (Except ReadError Datum)} {ds : List Datum}
    (h : xs.map (Except.mapError ReadError.withoutContext) = ds.map .ok) : xs = ds.map .ok := by
  induction xs generalizing ds with
  | nil => simpa using h
  | cons x xs ih =>
      cases ds with
      | nil => simp at h
      | cons d ds =>
          obtain ⟨hx, hrest⟩ := List.cons.inj h
          rw [List.map_cons, ih hrest]
          cases x with
          | ok d' => exact congrArg (· :: ds.map .ok) hx
          | error e => cases hx

theorem Reader.readAll_cases (limit : Option Nat) (source : String) :
    (∃ ds, (ofSource source limit).readAll = .ok ds ∧
      verdictsOf limit (tokensOf source.toList) = ds.map .ok) ∨
    ∃ e, (ofSource source limit).readAll = .error e ∧
      .error e.withoutContext ∈ verdictsOf limit (tokensOf source.toList) := by
  rw [← verdictsOn_eq, verdictsOn, verdicts]
  rcases mapM_id_cases (ofSource source limit).outcomes with ⟨ds, hall, hds⟩ | ⟨e, hall, he⟩
  · refine .inl ⟨ds, hall, ?_⟩
    rw [hds, List.map_map]
    rfl
  · exact .inr ⟨e, hall, List.mem_map_of_mem he⟩

/-- A text is read without an error exactly if all verdicts on its tokens are data. -/
theorem Reader.readAll_eq_ok_iff {limit : Option Nat} {source : String} {ds : List Datum} :
    (ofSource source limit).readAll = .ok ds ↔
      verdictsOf limit (tokensOf source.toList) = ds.map .ok := by
  rcases readAll_cases limit source with ⟨ds', hall, hds⟩ | ⟨e, hall, he⟩
  · rw [hall, hds]
    constructor
    · intro h
      cases h
      rfl
    · intro h
      exact congrArg Except.ok ((List.map_inj_right fun _ _ => Except.ok.inj).mp h)
  · rw [hall]
    constructor
    · intro h
      cases h
    · intro h
      rw [h] at he
      simp at he

/-- The error of a text, but for its excerpt, is the first one among the verdicts on its tokens. -/
theorem Reader.verdictsOf_of_error {limit : Option Nat} {source : String} {e : ReadError}
    (h : (ofSource source limit).readAll = .error e) :
    ∃ (ds : List Datum) (rest : List (Except ReadError Datum)),
      verdictsOf limit (tokensOf source.toList) =
        ds.map .ok ++ .error e.withoutContext :: rest := by
  obtain ⟨ds, rest, hout⟩ := mapM_id_eq_error_iff.mp h
  refine ⟨ds, rest.map (Except.mapError ReadError.withoutContext), ?_⟩
  rw [← verdictsOn_eq, verdictsOn, verdicts, hout, List.map_append, List.map_map]
  rfl

theorem Reader.readAll_of_verdictsOf {limit : Option Nat} {source : String} {ds : List Datum}
    {e : ReadError} {rest : List (Except ReadError Datum)}
    (h : verdictsOf limit (tokensOf source.toList) = ds.map .ok ++ .error e :: rest) :
    ∃ e', (ofSource source limit).readAll = .error e' ∧ e'.withoutContext = e := by
  rw [← verdictsOn_eq, verdictsOn, verdicts] at h
  obtain ⟨front, back, hout, hfront, hback⟩ := List.map_eq_append_iff.mp h
  obtain ⟨x, back, rfl, hx, -⟩ := List.map_eq_cons_iff.mp hback
  cases x with
  | ok d => cases hx
  | error e' =>
      refine ⟨e', ?_, Except.error.inj hx⟩
      exact mapM_id_eq_error_iff.mpr ⟨ds, back, by rw [hout, eq_map_ok_of_withoutContext hfront]⟩

namespace Repl

theorem readBuffer_eq_complete_iff {limit : Option Nat} {source : String} {ds : List Datum} :
    readBuffer limit source = .complete ds ↔
      verdictsOf limit (tokensOf source.toList) = ds.map .ok := by
  rw [← Reader.readAll_eq_ok_iff, readBuffer]
  split
  · rename_i ds' h
    simp [h]
  · rename_i e h
    rw [h]
    split <;> simp

/-- Lines that are refused hold a fault that nothing later mends. -/
theorem exists_fault_of_invalid {limit : Option Nat} {source : String} {e : ReadError}
    (h : readBuffer limit source = .invalid e) :
    ∃ v ∈ verdictsOf limit (tokensOf source.toList), isIncomplete v = false ∧ v.isOk = false := by
  rcases Reader.readAll_cases limit source with ⟨ds, hall, -⟩ | ⟨e', hall, he⟩
  · simp [readBuffer, hall] at h
  · refine ⟨_, he, ?_, rfl⟩
    simp only [readBuffer, hall] at h
    split at h
    · cases h
    · rename_i hkind
      simpa [isIncomplete, ReadError.withoutContext] using hkind

end Repl

end Lisp
