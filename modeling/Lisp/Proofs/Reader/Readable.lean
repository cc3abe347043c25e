import Lisp.Proofs.Reader.Depth
import Lisp.Proofs.Reader.Grammar
import Lisp.Proofs.Text.Upper
import Lisp.Proofs.Token.Stream
import Lisp.Proofs.Value.Shape

/-! # Readable data

A datum is readable if each of its symbols has a name that is read as that symbol. What the reader
gives is readable, whatever the text and the limit are: folding to upper case makes no name empty,
brings in no delimiter and no leading dot, and makes no integer. -/

namespace Lisp

/-- The name is an atom, and no integer of 64 bits. -/
def Symbol.Readable (s : Symbol) : Prop :=
  (Token.atom s.name).IsLexical ∧ Text.Decimal.readInt64? s.name.toList = none

instance (s : Symbol) : Decidable s.Readable :=
  inferInstanceAs (Decidable (_ ∧ _))

def Datum.Readable : Datum → Prop
  | number _ => True
  | symbol s => s.Readable
  | cons a d => a.Readable ∧ d.Readable

instance Datum.decidableReadable : (d : Datum) → Decidable d.Readable
  | number _ => inferInstanceAs (Decidable True)
  | symbol s => inferInstanceAs (Decidable s.Readable)
  | cons a d =>
    have := decidableReadable a
    have := decidableReadable d
    inferInstanceAs (Decidable (a.Readable ∧ d.Readable))

/-- No functions, and readable symbols only. -/
def Value.Readable : Value → Prop
  | number _ => True
  | symbol s => s.Readable
  | pair _ v w => v.Readable ∧ w.Readable
  | closure .. => False

instance Value.decidableReadable : (v : Value) → Decidable v.Readable
  | number _ => inferInstanceAs (Decidable True)
  | symbol s => inferInstanceAs (Decidable s.Readable)
  | pair _ v w =>
    have := decidableReadable v
    have := decidableReadable w
    inferInstanceAs (Decidable (v.Readable ∧ w.Readable))
  | closure .. => inferInstanceAs (Decidable False)

theorem Datum.Describes.readable_iff {d : Datum} {v : Value} (h : d.Describes v) :
    v.Readable ↔ d.Readable := by
  induction h with
  | number n => exact Iff.rfl
  | symbol s => exact Iff.rfl
  | pair serial _ _ iha ihd => exact and_congr iha ihd

theorem Value.Readable.exists_describes {v : Value} (h : v.Readable) : ∃ d : Datum, d.Describes v := by
  induction v with
  | number n => exact ⟨_, .number n⟩
  | symbol s => exact ⟨_, .symbol s⟩
  | closure => exact h.elim
  | pair serial v w ihv ihw =>
      obtain ⟨a, ha⟩ := ihv h.1
      obtain ⟨d, hd⟩ := ihw h.2
      exact ⟨_, .pair serial ha hd⟩

/-! ## Atoms -/

namespace Text

theorem isReserved_of_isDelimiter {c : Char} (h : Token.isDelimiter c = true) :
    isReserved c = true := by
  simp [isReserved, h]

theorem Decimal.IsInteger.isReserved {cs : List Char} {n : Int} (h : IsInteger cs n) {c : Char}
    (hc : c ∈ cs) : Text.isReserved c = true := by
  rcases h.mem hc with rfl | rfl | hdigit
  · decide
  · decide
  · simp [Text.isReserved, hdigit]

theorem Decimal.isDelimiter_of_isDigit :
    ∀ n < 128, (Char.ofNat n).isDigit = true →
      Token.isDelimiter (Char.ofNat n) = false ∧ Char.ofNat n ≠ '.' := by
  decide +kernel

/-- The text of an integer is an atom. -/
theorem Decimal.IsInteger.isLexical {text : String} {n : Int} (h : IsInteger text.toList n) :
    (Token.atom text).IsLexical := by
  have hmem : ∀ c ∈ text.toList, Token.isDelimiter c = false ∧ c ≠ '.' := by
    intro c hc
    rcases h.mem hc with rfl | rfl | hdigit
    · decide
    · decide
    · have hlt : c.toNat < 128 := Nat.lt_of_le_of_lt (toNat_of_isDigit hdigit).2 (by decide)
      have hspec := isDelimiter_of_isDigit c.toNat hlt
      rw [Char.ofNat_toNat] at hspec
      exact hspec hdigit
  refine ⟨h.ne_nil, ?_, fun c hc => (hmem c hc).1⟩
  intro hhead
  exact (hmem '.' (List.mem_of_head? hhead)).2 rfl

/-- Folding an atom gives an atom. -/
theorem isLexical_upper {text : String} (h : (Token.atom text).IsLexical) :
    (Token.atom (upper text)).IsLexical := by
  obtain ⟨hne, hdot, hdelim⟩ := h
  simp only [Token.IsLexical, upper, String.toList_ofList]
  refine ⟨?_, ?_, ?_⟩
  · intro hnil
    obtain ⟨c, hc⟩ := List.exists_mem_of_ne_nil _ hne
    exact upperChar_ne_nil c (List.flatMap_eq_nil_iff.mp hnil c hc)
  · intro hhead
    cases hcs : text.toList with
    | nil => exact hne hcs
    | cons c cs =>
        obtain ⟨d, ds, hds⟩ := List.exists_cons_of_ne_nil (upperChar_ne_nil c)
        obtain rfl : d = '.' := by simpa [hcs, hds] using hhead
        obtain rfl := eq_of_mem_upperChar (c := c) (d := '.') (by simp [hds]) (by decide)
        exact hdot (by simp [hcs])
  · intro d hd
    obtain ⟨c, hc, hdc⟩ := List.mem_flatMap.mp hd
    rw [Bool.eq_false_iff]
    intro hdelim'
    obtain rfl := eq_of_mem_upperChar hdc (isReserved_of_isDelimiter hdelim')
    rw [hdelim c hc] at hdelim'
    cases hdelim'

/-- Folding makes no integer. -/
theorem readInt64?_upper {text : String} (h : Decimal.readInt64? text.toList = none) :
    Decimal.readInt64? (upper text).toList = none := by
  rw [upper, String.toList_ofList]
  cases hk : Decimal.readInt64? (text.toList.flatMap upperChar) with
  | none => rfl
  | some k =>
      obtain ⟨n, hn, -⟩ := Decimal.readInt64?_eq_some_iff.mp hk
      rw [flatMap_upperChar_of_isReserved fun d hd => hn.isReserved hd, h] at hk
      cases hk

end Text

theorem Datum.readable_ofAtom {text : String} (h : (Token.atom text).IsLexical) :
    (ofAtom text).Readable := by
  rw [ofAtom]
  split
  · trivial
  · rename_i hk
    exact ⟨Text.isLexical_upper h, Text.readInt64?_upper hk⟩

/-! ## Derivations -/

theorem Symbol.readable_nil : Symbol.nil.Readable := by
  decide +kernel

theorem Builtin.readable_symbol_quote : (Builtin.symbol (.special .quote)).Readable := by
  decide +kernel

mutual

/-- Tokens of a text denote readable data. -/
theorem DerivesExpr.readable {p : List Token} {d : Datum} (h : DerivesExpr p d)
    (hp : ∀ t ∈ p, t.IsLexical) : d.Readable := by
  cases h with
  | atom hd =>
      rw [hd.eq_ofAtom]
      exact Datum.readable_ofAtom (hp _ (by simp))
  | list hlist => exact hlist.readable fun t ht => hp t (by simp [ht])
  | quote hexpr =>
      have hd := hexpr.readable fun t ht => hp t (by simp [ht])
      exact ⟨Builtin.readable_symbol_quote, hd, Symbol.readable_nil⟩

theorem DerivesList.readable {p : List Token} {d : Datum} (h : DerivesList p d)
    (hp : ∀ t ∈ p, t.IsLexical) : d.Readable := by
  cases h with
  | close => exact Symbol.readable_nil
  | dotted hfirst htail =>
      exact ⟨hfirst.readable fun t ht => hp t (by simp [ht]),
        htail.readable fun t ht => hp t (by simp [ht])⟩
  | more hfirst hrest =>
      exact ⟨hfirst.readable fun t ht => hp t (by simp [ht]),
        hrest.readable fun t ht => hp t (by simp [ht])⟩

end

/-! ## What the reader gives -/

namespace ReaderState

/-- A limit changes what a token does only by refusing it. -/
theorem feed_eq_or_fail (limit : Option Nat) (state : ReaderState) (t : Token) :
    state.feed limit t = state.feed none t ∨ ∃ f, state.feed limit t = .fail f := by
  cases hdepth : state.depth? t with
  | none => exact .inl (feed_of_depth?_eq_none hdepth limit)
  | some k =>
      obtain ⟨stack, -, -, hfeed⟩ := feed_of_depth?_eq_some hdepth
      rw [hfeed, hfeed]
      cases hdeep : isTooDeep limit stack with
      | true => exact .inr ⟨_, begin_of_isTooDeep hdeep⟩
      | false => exact .inl (begin_of_fits hdeep)

/-- An expression that is read below a limit is read without one. -/
theorem feedAll_eq_done_of_limit {limit : Option Nat} {state : ReaderState}
    {ts rest : List LocatedToken} {d : Datum} (h : state.feedAll limit ts = .done d rest) :
    state.feedAll none ts = .done d rest := by
  induction ts generalizing state with
  | nil => cases h
  | cons t ts ih =>
      rcases feed_eq_or_fail limit state t.token with heq | ⟨f, hfail⟩
      · rw [feedAll, heq] at h
        rw [feedAll]
        split at h
        · exact ih h
        · exact h
        · cases h
      · rw [feedAll_of_fail hfail] at h
        cases h

end ReaderState

theorem TokenStream.isLexical_of_mem_located {s : TokenStream} (hs : s.pushed = none)
    {t : LocatedToken} (ht : t ∈ s.located) : t.token.IsLexical := by
  fun_induction TokenStream.located s with
  | case1 s hnext => cases ht
  | case2 s t' s' hnext ih =>
      rcases List.mem_cons.mp ht with rfl | ht
      · exact (next?_spec hs hnext).1
      · exact ih (pushed_of_next? hnext) ht

namespace Reader

theorem readable_of_read?_ok {r r' : Reader} {d : Datum}
    (hr : ∀ t ∈ r.stream.located, t.token.IsLexical) (h : r.read? = some (.ok d, r')) :
    d.Readable := by
  have hdone := ReaderState.feedAll_eq_done_of_limit (feedAll_of_read?_ok h)
  obtain ⟨q, hq, hderives⟩ := ReaderState.feedAll_start_eq_done_iff.mp hdone
  refine hderives.readable fun t ht => ?_
  obtain ⟨t', ht', rfl⟩ := List.mem_map.mp ht
  exact hr t' (by simp [hq, ht'])

/-- Every datum that any text gives, under any limit, is readable. -/
theorem readable_of_mem_outcomes {r : Reader} {d : Datum}
    (hr : ∀ t ∈ r.stream.located, t.token.IsLexical) (h : .ok d ∈ r.outcomes) : d.Readable := by
  fun_induction outcomes r with
  | case1 r hread => cases h
  | case2 r result r' hread ih =>
      rcases List.mem_cons.mp h with rfl | h
      · exact readable_of_read?_ok hr hread
      · exact ih (fun t ht => hr t ((located_suffix hread).subset ht)) h

theorem readable_of_mem_outcomes_ofSource {source : String} {limit : Option Nat} {d : Datum}
    (h : .ok d ∈ (ofSource source limit).outcomes) : d.Readable :=
  readable_of_mem_outcomes (fun _ ht => TokenStream.isLexical_of_mem_located rfl ht) h

end Reader

end Lisp
