import Lisp.Proofs.Reader.Readable

/-! # Printing and reading back

The printed form of a readable value, in front of anything that ends an atom, is read back as a
datum of its shape, and nothing behind it is touched. The printer writes a list by its rest
(`WritesRest`), so the proof goes along two statements, one for each way in which a value is
written. -/

namespace Lisp

/-! ## Reading along a text -/

namespace TokenStream

/-- Tokens that complete an expression are all that is taken from the stream. -/
theorem Gives.readFrom {limit : Option Nat} {s s' : TokenStream} {ts : List LocatedToken}
    (h : Gives s ts s') {state : ReaderState} {d : Datum}
    (hfeed : state.feedAll limit ts = .done d []) : s.readFrom limit state = (.datum d, s') := by
  induction h generalizing state with
  | nil => cases hfeed
  | @cons s s₁ s₂ t ts hnext hrest ih =>
      rw [readFrom_of_some hnext]
      cases hstep : state.feed limit t.token with
      | more state' =>
          rw [ReaderState.feedAll_of_more hstep] at hfeed
          exact ih hfeed
      | done d' =>
          rw [ReaderState.feedAll_of_done hstep] at hfeed
          cases hfeed
          cases hrest
          rfl
      | fail f =>
          rw [ReaderState.feedAll_of_fail hstep] at hfeed
          cases hfeed

end TokenStream

theorem Reader.read?_of_gives {r : Reader} {s : TokenStream} {ts : List LocatedToken} {d : Datum}
    (h : r.stream.Gives ts s) (hfeed : ReaderState.start.feedAll r.limit ts = .done d []) :
    r.read? = some (.ok d, { r with stream := s }) := by
  cases h with
  | nil => cases hfeed
  | cons hnext hrest =>
      have hgives := TokenStream.Gives.cons (TokenStream.next?_pushBack hnext) hrest
      rw [read?, hnext]
      simp only
      rw [hgives.readFrom hfeed]
      rfl

/-! ## The printed form, token by token -/

namespace Value

/-- In front of whatever ends an atom, the value is written as tokens that denote the datum. -/
def WritesExpr (v : Value) (d : Datum) : Prop :=
  ∀ after offset, (∀ c, after.head? = some c → Token.isDelimiter c = true) →
    ∃ ts offset', TokenStream.Gives ⟨v.write false after, offset, none⟩ ts ⟨after, offset', none⟩ ∧
      DerivesExpr (ts.map LocatedToken.token) d

/-- In front of anything, as the rest of a list, the value is written as tokens that complete the
list behind an element. -/
def WritesRest (v : Value) (d : Datum) : Prop :=
  ∀ after offset, ∃ ts offset',
    TokenStream.Gives ⟨v.write true after, offset, none⟩ ts ⟨after, offset', none⟩ ∧
      ∀ p a, DerivesExpr p a → DerivesList (p ++ ts.map LocatedToken.token) (.cons a d)

theorem write_append (v : Value) (inTail : Bool) (after : List Char) :
    v.write inTail after = v.write inTail [] ++ after := by
  induction v generalizing inTail after with
  | pair serial first rest ihf ihr =>
      rw [write, write, ihr true after, ihf false (rest.write true [] ++ after),
        ihf false (rest.write true [])]
      simp
  | number n => cases inTail <;> simp [write, isNil]
  | symbol s =>
      cases inTail with
      | false => simp [write]
      | true =>
          simp only [write]
          split <;> simp
  | closure serial params body frame => cases inTail <;> simp [write, isNil]

theorem toList_print_append (v : Value) (after : String) :
    (v.print ++ after).toList = v.write false after.toList := by
  rw [String.toList_append, print, String.toList_ofList, ← write_append]

/-- The rest of a list begins with a blank or the closing parenthesis. -/
theorem isDelimiter_head_write (v : Value) (after : List Char) :
    ∀ c, (v.write true after).head? = some c → Token.isDelimiter c = true := by
  intro c hc
  have hcases : c = ' ' ∨ c = ')' := by
    cases v with
    | pair serial first rest => exact .inl (by simpa [write, eq_comm] using hc)
    | number n => exact .inl (by simpa [write, isNil, eq_comm] using hc)
    | closure serial params body frame => exact .inl (by simpa [write, isNil, eq_comm] using hc)
    | symbol s =>
        simp only [write] at hc
        split at hc
        · exact .inr (by simpa [eq_comm] using hc)
        · exact .inl (by simpa [eq_comm] using hc)
  rcases hcases with rfl | rfl
  · decide
  · decide

/-! ### Atoms -/

/-- An atom whose text is read as itself is written as that text. -/
theorem writesExpr_of_atom {v : Value} {text : String}
    (hwrite : ∀ after, v.write false after = text.toList ++ after)
    (htext : (Token.atom text).IsLexical) : v.WritesExpr (.ofAtom text) := by
  intro after offset hafter
  rw [hwrite]
  exact ⟨_, _, TokenStream.gives_atom offset htext hafter, .atom (atomDenotes_ofAtom text)⟩

/-- As the rest of a list, `NIL` is only the closing parenthesis. -/
theorem writesRest_nil : nil.WritesRest .nil := by
  intro after offset
  exact ⟨_, _, TokenStream.gives_closing after offset, fun p a hp => .more hp .close⟩

/-- As the rest of a list, any other atom stands behind a dot. -/
theorem WritesExpr.writesRest {v : Value} {d : Datum} (h : v.WritesExpr d)
    (hwrite : ∀ after, v.write true after = ' ' :: '.' :: ' ' :: v.write false (')' :: after)) :
    v.WritesRest d := by
  intro after offset
  have hclosing : ∀ c, (')' :: after).head? = some c → Token.isDelimiter c = true := by
    intro c hc
    cases hc
    decide
  obtain ⟨ts, offset', hts, hd⟩ := h (')' :: after) (offset + 1 + 1 + 1) hclosing
  have hdatum : TokenStream.Gives ⟨' ' :: v.write false (')' :: after), offset + 1 + 1, none⟩ ts
      ⟨')' :: after, offset', none⟩ :=
    .blank (by decide) (by simpa using hd.ne_nil) hts
  have hdotted := (TokenStream.gives_dot _ (offset + 1)).append
    (hdatum.append (TokenStream.gives_closing after offset'))
  have hgives := TokenStream.Gives.blank (c := ' ') (by decide) (by simp) hdotted
  rw [hwrite]
  refine ⟨_, _, hgives, fun p a hp => ?_⟩
  have hlist := DerivesList.dotted hp hd
  simpa using hlist

/-! ### Pairs -/

theorem writesExpr_pair {v w : Value} {a d : Datum} (serial : Serial) (hv : v.WritesExpr a)
    (hw : w.WritesRest d) : (pair serial v w).WritesExpr (.cons a d) := by
  intro after offset _
  obtain ⟨ts, offset₁, hts, ha⟩ := hv (w.write true after) (offset + 1)
    (isDelimiter_head_write w after)
  obtain ⟨us, offset₂, hus, hd⟩ := hw after offset₁
  refine ⟨_, offset₂, (TokenStream.gives_opening _ offset).append (hts.append hus), ?_⟩
  simpa using DerivesExpr.list (hd _ a ha)

theorem writesRest_pair {v w : Value} {a d : Datum} (serial : Serial) (hv : v.WritesExpr a)
    (hw : w.WritesRest d) : (pair serial v w).WritesRest (.cons a d) := by
  intro after offset
  obtain ⟨ts, offset₁, hts, ha⟩ := hv (w.write true after) (offset + 1)
    (isDelimiter_head_write w after)
  obtain ⟨us, offset₂, hus, hd⟩ := hw after offset₁
  have hne : ts ++ us ≠ [] := by
    intro hnil
    obtain rfl := (List.append_eq_nil_iff.mp hnil).1
    exact ha.ne_nil rfl
  have hgives : TokenStream.Gives ⟨(pair serial v w).write true after, offset, none⟩ (ts ++ us)
      ⟨after, offset₂, none⟩ :=
    .blank (by decide) hne (hts.append hus)
  refine ⟨_, offset₂, hgives, fun p b hp => ?_⟩
  simpa using DerivesList.more hp (hd _ a ha)

end Value

/-! ### Every readable value -/

namespace Datum

theorem ofAtom_ofInt (n : Int64) : ofAtom (Text.Decimal.ofInt n.toInt) = .number n := by
  rw [ofAtom, Text.Decimal.readInt64?_ofInt]

theorem ofAtom_name {s : Symbol} (h : s.Readable) : ofAtom s.name = .symbol s := by
  rw [ofAtom, h.2]
  simp only [Symbol.ofName_name]

theorem Describes.writes {d : Datum} {v : Value} (h : d.Describes v) (hd : d.Readable) :
    v.WritesExpr d ∧ v.WritesRest d := by
  induction h with
  | number n =>
      have hexpr : (Value.number n).WritesExpr (.number n) := by
        rw [← ofAtom_ofInt]
        exact Value.writesExpr_of_atom (fun _ => rfl)
          (Text.Decimal.isInteger_ofInt n.toInt).isLexical
      exact ⟨hexpr, hexpr.writesRest fun _ => rfl⟩
  | symbol s =>
      have hexpr : (Value.symbol s).WritesExpr (.symbol s) := by
        rw [← ofAtom_name hd]
        exact Value.writesExpr_of_atom (fun _ => rfl) hd.1
      refine ⟨hexpr, ?_⟩
      by_cases hnil : s.isNil = true
      · obtain rfl : s = .nil := by simpa [Symbol.isNil] using hnil
        exact Value.writesRest_nil
      · refine hexpr.writesRest fun after => ?_
        simp [Value.write, Value.isNil, hnil]
  | pair serial _ _ iha ihd =>
      obtain ⟨hfirst, -⟩ := iha hd.1
      obtain ⟨-, hrest⟩ := ihd hd.2
      exact ⟨Value.writesExpr_pair serial hfirst hrest, Value.writesRest_pair serial hfirst hrest⟩

/-! ## The round trip -/

/-- The printed form is read back, and reading stops right behind it. -/
theorem Describes.read?_print {d : Datum} {v : Value} (h : d.Describes v) (hd : d.Readable)
    (after : String) (hafter : ∀ c, after.toList.head? = some c → Token.isDelimiter c = true) :
    (Reader.ofSource (v.print ++ after) none).read? =
      some (.ok d, ⟨v.print ++ after, ⟨after.toList, v.print.utf8ByteSize, none⟩, none⟩) := by
  obtain ⟨ts, offset, hgives, hderives⟩ := (h.writes hd).1 after.toList 0 hafter
  have hoffset : offset = v.print.utf8ByteSize := by
    have hbytes := hgives.offset_eq rfl
    simp only [← Value.toList_print_append, String.ofList_toList,
      String.utf8ByteSize_append] at hbytes
    omega
  rw [hoffset, ← Value.toList_print_append] at hgives
  have hfeed : ReaderState.start.feedAll none ts = .done d [] := by
    have hall := ReaderState.feedAll_derivesExpr hderives rfl [] []
    rwa [List.append_nil] at hall
  exact Reader.read?_of_gives (r := Reader.ofSource (v.print ++ after) none) hgives hfeed

theorem Describes.parse_print {d : Datum} {v : Value} (h : d.Describes v) (hd : d.Readable) :
    parse v.print = .ok d := by
  have hread := h.read?_print hd "" (by simp)
  rw [String.append_empty] at hread
  rw [parse, Reader.readRequired, hread]

/-- Readable values are equal exactly if they are printed alike. -/
theorem Describes.equal_iff_print_eq {d e : Datum} {v w : Value} (hv : d.Describes v)
    (hw : e.Describes w) (hd : d.Readable) (he : e.Readable) (hcoherent : v.Coherent w) :
    v.equal w = true ↔ v.print = w.print := by
  constructor
  · intro hequal
    obtain rfl := hv.eq_of_equal hw hcoherent hequal
    exact hv.print_eq hw
  · intro hprint
    have hparse := hv.parse_print hd
    rw [hprint, hw.parse_print he] at hparse
    cases hparse
    exact hv.equal hw

end Datum

namespace Reader

/-- Some text gives the datum under some limit. -/
def CanReturn (d : Datum) : Prop :=
  ∃ source limit, .ok d ∈ (ofSource source limit).outcomes

theorem mem_outcomes_of_read? {r r' : Reader} {result : Except ReadError Datum}
    (h : r.read? = some (result, r')) : result ∈ r.outcomes := by
  rw [outcomes]
  split
  · rename_i h'
    rw [h] at h'
    cases h'
  · rename_i h'
    rw [h] at h'
    cases h'
    exact List.mem_cons_self

/-- The reader returns the readable data and no others. -/
theorem canReturn_iff (d : Datum) : CanReturn d ↔ d.Readable := by
  constructor
  · rintro ⟨source, limit, h⟩
    exact readable_of_mem_outcomes_ofSource h
  · intro hd
    have hread := (Value.describes_ofDatum d 0).read?_print hd "" (by simp)
    exact ⟨_, none, mem_outcomes_of_read? hread⟩

end Reader

/-- What is printed is read back. A readable value, printed in front of nothing or of a delimiter,
is read as an equal one and the reader stops right behind it. What the reader returns is readable,
so its printed form denotes it, and equality of such values is equality of their printed forms. -/
theorem print_read_round_trip :
    (∀ (v : Value) (after : String), v.Readable →
      (∀ c, after.toList.head? = some c → Token.isDelimiter c = true) →
      ∃ d r, (Reader.ofSource (v.print ++ after) none).read? = some (.ok d, r) ∧
        r.stream = ⟨after.toList, v.print.utf8ByteSize, none⟩ ∧
        ∀ n, ((Value.ofDatum d).run n).1.equal v = true) ∧
    (∀ d n, Reader.CanReturn d →
      ((Value.ofDatum d).run n).1.Readable ∧ parse ((Value.ofDatum d).run n).1.print = .ok d ∧
        ∀ m, ((Value.ofDatum d).run m).1.equal ((Value.ofDatum d).run n).1 = true) ∧
    (∀ v w : Value, v.Readable → w.Readable → v.Coherent w →
      (v.equal w = true ↔ v.print = w.print)) ∧
    (∀ d e n m, Reader.CanReturn d → Reader.CanReturn e → ((Value.ofDatum d).run n).2 ≤ m →
      let v := ((Value.ofDatum d).run n).1
      let w := ((Value.ofDatum e).run m).1
      (v.equal w = true ↔ v.print = w.print) ∧ (w.equal v = true ↔ w.print = v.print)) := by
  refine ⟨?_, ?_, ?_, ?_⟩
  · intro v after hv hafter
    obtain ⟨d, hd⟩ := hv.exists_describes
    refine ⟨d, _, hd.read?_print (hd.readable_iff.mp hv) after hafter, rfl, fun n => ?_⟩
    exact (Value.describes_ofDatum d n).equal hd
  · intro d n hd
    rw [Reader.canReturn_iff] at hd
    have hshape := Value.describes_ofDatum d n
    refine ⟨hshape.readable_iff.mpr hd, hshape.parse_print hd, fun m => ?_⟩
    exact (Value.describes_ofDatum d m).equal hshape
  · intro v w hv hw hcoherent
    obtain ⟨d, hd⟩ := hv.exists_describes
    obtain ⟨e, he⟩ := hw.exists_describes
    exact hd.equal_iff_print_eq he (hd.readable_iff.mp hv) (he.readable_iff.mp hw) hcoherent
  · intro d e n m hd he hm v w
    rw [Reader.canReturn_iff] at hd he
    have hv : d.Describes v := Value.describes_ofDatum d n
    have hw : e.Describes w := Value.describes_ofDatum e m
    have hcoherent : v.Coherent w := Value.coherent_ofDatum d e hm
    exact ⟨hv.equal_iff_print_eq hw hd he hcoherent,
      hw.equal_iff_print_eq hv he hd hcoherent.symm⟩

theorem print_read_round_trip_dotted :
    let d : Datum := .cons (.symbol (.ofName "1.5")) (.number (-7))
    let v : Value := .pair 8 (.symbol (.ofName "+")) (.pair 7 (.symbol (.ofName "1.5")) (.number (-7)))
    (v.Readable ∧ ∃ d r, (Reader.ofSource (v.print ++ ")x") none).read? = some (.ok d, r) ∧
      r.stream = ⟨")x".toList, v.print.utf8ByteSize, none⟩ ∧
      ∀ n, ((Value.ofDatum d).run n).1.equal v = true) ∧
    (Reader.CanReturn d ∧ parse ((Value.ofDatum d).run 3).1.print = .ok d) ∧
    (v.Coherent (.number 5) ∧ (v.equal (.number 5) = true ↔ v.print = (Value.number 5).print)) ∧
    (((Value.ofDatum d).run 3).2 ≤ 4 ∧
      (((Value.ofDatum d).run 3).1.equal ((Value.ofDatum d).run 4).1 = true ↔
        ((Value.ofDatum d).run 3).1.print = ((Value.ofDatum d).run 4).1.print)) := by
  intro d v
  have hd : Reader.CanReturn d := (Reader.canReturn_iff d).mpr (by decide +kernel)
  have hv : v.Readable := by decide +kernel
  have hcoherent : v.Coherent (.number 5) := fun _ _ _ _ _ _ h => nomatch h
  obtain ⟨hread, hreturned, hequal, hmade⟩ := print_read_round_trip
  refine ⟨⟨hv, hread v ")x" hv ?_⟩, ⟨hd, (hreturned d 3 hd).2.1⟩,
    ⟨hcoherent, hequal v (.number 5) hv trivial hcoherent⟩, ?_⟩
  · intro c hc
    obtain rfl : ')' = c := by simpa using hc
    decide
  · have hle : ((Value.ofDatum d).run 3).2 ≤ 4 := by decide
    exact ⟨hle, (hmade d d 3 4 hd hd hle).1⟩

end Lisp
