import Lisp.Text.CaseTable

/-!
# Upper case

`upper` folds a text to upper case one character at a time, by the full Unicode mapping: a
character can become several (`ß` becomes `SS`). Main statement: `upper_upper`, a folded text is
left alone by a second folding.
-/

namespace Lisp.Text

/-- The upper-case form of a code point outside ASCII. -/
def upperCode (c : Nat) : List Nat :=
  match CaseTable.runs.findSome? (·.upper? c) with
  | some u => [u]
  | none => (CaseTable.expansions.lookup c).getD [c]

def upperChar (c : Char) : List Char :=
  if c.toNat < 128 then [c.toUpper] else (upperCode c.toNat).map Char.ofNat

def upper (s : String) : String :=
  String.ofList (s.toList.flatMap upperChar)

/-! ### No upper-case form is in the tables

The tables are checked run against run: the forms that a run produces lie outside the span of
every other run, or fall on the code points that its stride leaves out.
-/

namespace CaseRun

/-- No form that `r` produces is a code point of `q`. -/
def avoids (r q : CaseRun) : Bool :=
  Nat.blt (r.upper + (r.last - r.first)) q.first || Nat.blt q.last r.upper ||
    (q.stride == 2 && (r.stride == 2 || r.first == r.last) && (r.upper + q.first) % 2 == 1)

theorem upper?_eq_none_of_avoids {r q : CaseRun} {c u : Nat} (h : r.avoids q = true)
    (hu : r.upper? c = some u) : q.upper? u = none := by
  simp only [avoids, Nat.blt_eq, Bool.or_eq_true, Bool.and_eq_true, beq_iff_eq] at h
  simp only [upper?, Option.ite_none_right_eq_some, Option.some.injEq] at hu
  obtain ⟨⟨h₁, h₂, h₃⟩, rfl⟩ := hu
  simp only [upper?, ite_eq_right_iff, reduceCtorEq, imp_false]
  rintro ⟨h₄, h₅, h₆⟩
  rcases h with (h | h) | ⟨⟨h, h' | h'⟩, h''⟩
  · omega
  · omega
  · rw [h] at h₆
    rw [h'] at h₃
    omega
  · rw [h] at h₆
    omega

/-- The forms of `r` are characters, and none of them is a small ASCII letter. -/
def isSettled (r : CaseRun) : Bool :=
  let top := r.upper + (r.last - r.first)
  Nat.blt top 97 || (Nat.ble 128 r.upper && Nat.blt top 0xD800) ||
    (Nat.ble 0xE000 r.upper && Nat.blt top 0x110000)

end CaseRun

namespace CaseTable

/-- The tables as runs that produce one code point for each of theirs. -/
def sources : List CaseRun :=
  runs ++ expansions.flatMap fun e => e.2.map (CaseRun.single e.1)

/-- The tables as the code points they change. -/
def keys : List CaseRun :=
  runs ++ expansions.map fun e => CaseRun.single e.1 e.1

theorem sources_avoid_keys : (sources.all fun r => keys.all r.avoids) = true := by
  decide +kernel

theorem sources_settled : (sources.all CaseRun.isSettled) = true := by
  decide +kernel

theorem mem_sources_of_mem_expansions {c u : Nat} {us : List Nat} (h : (c, us) ∈ expansions)
    (hu : u ∈ us) : CaseRun.single c u ∈ sources :=
  List.mem_append_right _ (List.mem_flatMap.2 ⟨(c, us), h, List.mem_map_of_mem hu⟩)

end CaseTable

theorem CaseRun.upper?_single (c u : Nat) : (CaseRun.single c u).upper? c = some u := by
  simp [CaseRun.upper?, CaseRun.single]

/-- A code point is kept, or its form comes from the tables. -/
theorem mem_upperCode {c u : Nat} (h : u ∈ upperCode c) :
    (u = c ∧ upperCode c = [c]) ∨ ∃ r ∈ CaseTable.sources, r.upper? c = some u := by
  cases hr : CaseTable.runs.findSome? (·.upper? c) with
  | some v =>
    obtain ⟨r, hmem, hv⟩ := List.exists_of_findSome?_eq_some hr
    have : u = v := by simpa [upperCode, hr] using h
    exact .inr ⟨r, List.mem_append_left _ hmem, this ▸ hv⟩
  | none =>
    cases he : CaseTable.expansions.lookup c with
    | none =>
      have hc : upperCode c = [c] := by simp [upperCode, hr, he]
      exact .inl ⟨by simpa [hc] using h, hc⟩
    | some us =>
      have hu : u ∈ us := by simpa [upperCode, hr, he] using h
      have hmem : (c, us) ∈ CaseTable.expansions := by
        obtain ⟨l₁, l₂, h', -⟩ := List.lookup_eq_some_iff.1 he
        simp [h']
      exact .inr ⟨_, CaseTable.mem_sources_of_mem_expansions hmem hu, CaseRun.upper?_single c u⟩

/-- A form that comes from the tables is not changed by them. -/
theorem upperCode_of_mem_sources {r : CaseRun} {c u : Nat} (hr : r ∈ CaseTable.sources)
    (h : r.upper? c = some u) : upperCode u = [u] := by
  have avoids : ∀ q ∈ CaseTable.keys, q.upper? u = none := fun q hq =>
    CaseRun.upper?_eq_none_of_avoids
      (List.all_eq_true.1 (List.all_eq_true.1 CaseTable.sources_avoid_keys r hr) q hq) h
  have hruns : CaseTable.runs.findSome? (·.upper? u) = none :=
    List.findSome?_eq_none_iff.2 fun q hq => avoids q (List.mem_append_left _ hq)
  have hexp : CaseTable.expansions.lookup u = none := by
    refine List.lookup_eq_none_iff.2 fun e he => ?_
    have hne := avoids (CaseRun.single e.1 e.1)
      (List.mem_append_right _ (List.mem_map.2 ⟨e, he, rfl⟩))
    rw [bne_iff_ne]
    rintro rfl
    simp [CaseRun.upper?_single] at hne
  simp [upperCode, hruns, hexp]

/-- A form that comes from the tables is a character other than a small ASCII letter. -/
theorem settled_of_mem_sources {r : CaseRun} {c u : Nat} (hr : r ∈ CaseTable.sources)
    (h : r.upper? c = some u) : u < 97 ∨ (128 ≤ u ∧ u.isValidChar) := by
  have hs := List.all_eq_true.1 CaseTable.sources_settled r hr
  simp only [CaseRun.isSettled, Nat.blt_eq, Bool.or_eq_true, Bool.and_eq_true, Nat.ble_eq] at hs
  simp only [CaseRun.upper?, Option.ite_none_right_eq_some, Option.some.injEq] at h
  simp only [Nat.isValidChar]
  omega

/-! ### Folding twice -/

theorem upperChar_toUpper_ascii :
    ∀ n < 128, upperChar (Char.ofNat n).toUpper = [(Char.ofNat n).toUpper] := by
  decide +kernel

theorem upperChar_of_lt :
    ∀ n < 97, upperChar (Char.ofNat n) = [Char.ofNat n] := by
  decide +kernel

/-- Every character of an upper-case form is its own upper-case form. -/
theorem upperChar_of_mem_upperChar {c d : Char} (h : d ∈ upperChar c) : upperChar d = [d] := by
  by_cases hc : c.toNat < 128
  · have hd : d = c.toUpper := by simpa [upperChar, hc] using h
    simpa [hd] using upperChar_toUpper_ascii c.toNat hc
  · simp only [upperChar, hc, if_false, List.mem_map] at h
    obtain ⟨u, hu, rfl⟩ := h
    rcases mem_upperCode hu with ⟨rfl, hfix⟩ | ⟨r, hr, hru⟩
    · simp [upperChar, hc, hfix]
    · rcases settled_of_mem_sources hr hru with hlt | ⟨hge, hvalid⟩
      · exact upperChar_of_lt u hlt
      · have hnat : (Char.ofNat u).toNat = u := by
          rw [Char.ofNat, dif_pos hvalid]
          rfl
        simp [upperChar, hnat, Nat.not_lt.2 hge, upperCode_of_mem_sources hr hru]

theorem flatMap_upperChar_of_fixed {cs : List Char} (h : ∀ c ∈ cs, upperChar c = [c]) :
    cs.flatMap upperChar = cs := by
  induction cs with
  | nil => rfl
  | cons c cs ih =>
    rw [List.flatMap_cons, h c (by simp), ih fun d hd => h d (by simp [hd])]
    rfl

/-- Folding to upper case a second time changes nothing. -/
@[simp] theorem upper_upper (s : String) : upper (upper s) = upper s := by
  have fixed : ∀ d ∈ s.toList.flatMap upperChar, upperChar d = [d] := fun d hd =>
    let ⟨_, _, h⟩ := List.mem_flatMap.1 hd
    upperChar_of_mem_upperChar h
  simp only [upper, String.toList_ofList, flatMap_upperChar_of_fixed fixed]

end Lisp.Text
