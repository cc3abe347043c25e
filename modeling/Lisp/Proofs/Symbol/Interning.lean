import Lisp.Symbol.Table
import Mathlib.Data.List.Induction

/-! # Interning over a history

Symbols are compared as objects, and names are what they stand for. The two come to the same: over
every history of requests a canonical name leads to one object and an object has one name, at
whatever moments the two are met. So it is sound to work with `Symbol`, which is a name. -/

namespace Lisp

inductive SymbolRequest
  | intern (raw : String)
  | find (raw : String)

def SymbolRequest.spelling : SymbolRequest → String
  | intern raw | find raw => raw

theorem Builtin.mem_all (b : Builtin) : b ∈ Builtin.all := by
  cases b with
  | special form => cases form <;> decide
  | primitive op => cases op <;> decide

namespace SymbolTable

variable {t : SymbolTable} {q : SymbolRequest} {o : SymbolObject}

/-! ## Well-formed tables -/

/-- Every object stands under its own name, was made before, and knows the operator of its name; and
no object stands under two names. -/
structure WellFormed (t : SymbolTable) : Prop where
  name_eq : ∀ {name o}, t.entries.lookup name = some o → o.symbol.name = name
  serial_lt : ∀ {name o}, t.entries.lookup name = some o → o.serial < t.next
  builtin_eq : ∀ {name o}, t.entries.lookup name = some o → o.builtin = Builtin.named? name
  one_name : ∀ {name name' o o'}, t.entries.lookup name = some o →
    t.entries.lookup name' = some o' → o.serial = o'.serial → name = name'

theorem lookup_add (t : SymbolTable) (s : Symbol) (name : String) :
    (t.add s).2.entries.lookup name =
      if name = s.name then some (t.add s).1 else t.entries.lookup name := by
  have hentries : (t.add s).2.entries = (s.name, (t.add s).1) :: t.entries := rfl
  rw [hentries, List.lookup_cons]
  by_cases hname : name = s.name
  · simp [hname]
  · simp [hname, beq_eq_false_iff_ne.mpr hname]

theorem wellFormed_empty : empty.WellFormed :=
  ⟨nofun, nofun, nofun, nofun⟩

/-- A new object has a serial number of its own. -/
theorem WellFormed.add (ht : t.WellFormed) (s : Symbol) : (t.add s).2.WellFormed := by
  have hnext : (t.add s).2.next = t.next + 1 := rfl
  have hcases : ∀ {name o}, (t.add s).2.entries.lookup name = some o →
      (name = s.name ∧ o = (t.add s).1) ∨ t.entries.lookup name = some o := by
    intro name o h
    rw [lookup_add] at h
    split at h
    · exact .inl ⟨‹_›, (Option.some.inj h).symm⟩
    · exact .inr h
  refine ⟨?_, ?_, ?_, ?_⟩
  · intro name o h
    rcases hcases h with ⟨rfl, rfl⟩ | h
    · rfl
    · exact ht.name_eq h
  · intro name o h
    rw [hnext]
    rcases hcases h with ⟨rfl, rfl⟩ | h
    · exact Nat.lt_succ_self t.next
    · exact Nat.lt_succ_of_lt (ht.serial_lt h)
  · intro name o h
    rcases hcases h with ⟨rfl, rfl⟩ | h
    · rfl
    · exact ht.builtin_eq h
  · intro name name' o o' h h' hserial
    have hnew : (t.add s).1.serial = t.next := rfl
    rcases hcases h with ⟨rfl, rfl⟩ | h <;> rcases hcases h' with ⟨rfl, rfl⟩ | h'
    · rfl
    · have := ht.serial_lt h'
      omega
    · have := ht.serial_lt h
      omega
    · exact ht.one_name h h' hserial

/-! ## Tables that grow -/

/-- Every name that leads to an object goes on leading to it. -/
def Keeps (t t' : SymbolTable) : Prop :=
  ∀ name o, t.entries.lookup name = some o → t'.entries.lookup name = some o

theorem Keeps.add {s : Symbol} (hs : t.entries.lookup s.name = none) : t.Keeps (t.add s).2 := by
  intro name o h
  rw [lookup_add, if_neg]
  · exact h
  · rintro rfl
    rw [hs] at h
    cases h

/-- Interning leads to an object under the canonical name, and enters it if there was none. -/
theorem lookup_internObject (t : SymbolTable) (raw name : String) :
    (t.internObject raw).2.entries.lookup name =
      if name = Text.upper raw then some (t.internObject raw).1 else t.entries.lookup name := by
  rw [internObject]
  cases h : t.findObject? raw with
  | none => exact lookup_add t (.ofName raw) name
  | some o =>
      by_cases hname : name = Text.upper raw
      · rw [if_pos hname, hname]
        exact h
      · rw [if_neg hname]

theorem Keeps.internObject (t : SymbolTable) (raw : String) : t.Keeps (t.internObject raw).2 := by
  rw [SymbolTable.internObject]
  cases h : t.findObject? raw with
  | none => exact .add h
  | some o => exact fun _ _ h => h

theorem WellFormed.internObject (ht : t.WellFormed) (raw : String) :
    (t.internObject raw).2.WellFormed := by
  rw [SymbolTable.internObject]
  cases t.findObject? raw with
  | none => exact ht.add _
  | some o => exact ht

/-! ## The names known from the start -/

/-- `NIL`, `TRUE` or the name of an operator. -/
def IsPredefined (name : String) : Prop :=
  name = "NIL" ∨ name = "TRUE" ∨ ∃ b : Builtin, b.name = name

theorem isPredefined_iff {name : String} :
    IsPredefined name ↔ ∃ s ∈ Symbol.predefined, s.name = name := by
  have hnil : Symbol.nil.name = "NIL" := rfl
  have htruth : Symbol.truth.name = "TRUE" := rfl
  have hbuiltin : ∀ b : Builtin, b.symbol.name = b.name := fun _ => rfl
  simp only [IsPredefined, Symbol.predefined, List.mem_cons, List.mem_map, exists_eq_or_imp, hnil,
    htruth, ↓existsAndEq, hbuiltin, Builtin.mem_all, true_and, eq_comm]

theorem wellFormed_seeded : seeded.WellFormed := by
  have hfold : ∀ (names : List Symbol) (t : SymbolTable), t.WellFormed →
      (names.foldl (fun t s => (t.add s).2) t).WellFormed := by
    intro names
    induction names with
    | nil => exact fun _ ht => ht
    | cons s names ih => exact fun t ht => ih _ (ht.add s)
  exact hfold _ _ wellFormed_empty

theorem isSome_lookup_seeded (name : String) :
    (seeded.entries.lookup name).isSome ↔ IsPredefined name := by
  have hfold : ∀ (names : List Symbol) (t : SymbolTable),
      (((names.foldl (fun t s => (t.add s).2) t).entries.lookup name).isSome ↔
        (∃ s ∈ names, s.name = name) ∨ (t.entries.lookup name).isSome) := by
    intro names
    induction names with
    | nil => simp
    | cons s names ih =>
        intro t
        rw [List.foldl_cons, ih, lookup_add]
        by_cases hname : name = s.name
        · simp [hname]
        · simp [hname, Ne.symm hname]
  rw [isPredefined_iff, seeded, hfold]
  simp [empty]

/-! ## Histories -/

def respond (t : SymbolTable) : SymbolRequest → Option SymbolObject × SymbolTable
  | .intern raw => (some (t.internObject raw).1, (t.internObject raw).2)
  | .find raw => (t.findObject? raw, t)

def afterRequests (requests : List SymbolRequest) : SymbolTable :=
  requests.foldl (fun t q => (t.respond q).2) seeded

/-- The answer to the request at place `i`, those before having been answered. -/
def answer? (requests : List SymbolRequest) (i : Nat) : Option SymbolObject :=
  requests[i]?.bind fun q => ((afterRequests (requests.take i)).respond q).1

theorem WellFormed.respond (ht : t.WellFormed) (q : SymbolRequest) : (t.respond q).2.WellFormed := by
  cases q with
  | intern raw => exact ht.internObject raw
  | find raw => exact ht

theorem Keeps.respond (t : SymbolTable) (q : SymbolRequest) : t.Keeps (t.respond q).2 := by
  cases q with
  | intern raw => exact .internObject t raw
  | find raw => exact fun _ _ h => h

/-- An answer is what the table has under the canonical spelling from then on. -/
theorem lookup_of_respond (h : (t.respond q).1 = some o) :
    (t.respond q).2.entries.lookup (Text.upper q.spelling) = some o := by
  cases q with
  | find raw => exact h
  | intern raw =>
      rw [SymbolTable.respond, SymbolRequest.spelling, lookup_internObject, if_pos rfl]
      exact h

theorem isSome_lookup_respond (t : SymbolTable) (q : SymbolRequest) (name : String) :
    ((t.respond q).2.entries.lookup name).isSome ↔
      (∃ raw, q = .intern raw ∧ Text.upper raw = name) ∨ (t.entries.lookup name).isSome := by
  cases q with
  | find raw => simp [SymbolTable.respond]
  | intern raw =>
      rw [SymbolTable.respond, lookup_internObject]
      by_cases hname : name = Text.upper raw
      · simp [hname]
      · simp [hname, Ne.symm hname]

theorem afterRequests_append (requests later : List SymbolRequest) :
    afterRequests (requests ++ later) =
      later.foldl (fun t q => (t.respond q).2) (afterRequests requests) := by
  rw [afterRequests, List.foldl_append, afterRequests]

theorem afterRequests_concat (requests : List SymbolRequest) (q : SymbolRequest) :
    afterRequests (requests ++ [q]) = ((afterRequests requests).respond q).2 :=
  afterRequests_append requests [q]

theorem wellFormed_afterRequests (requests : List SymbolRequest) :
    (afterRequests requests).WellFormed := by
  induction requests using List.reverseRecOn with
  | nil => exact wellFormed_seeded
  | append_singleton requests q ih =>
      rw [afterRequests_concat]
      exact ih.respond q

theorem keeps_afterRequests (requests later : List SymbolRequest) :
    (afterRequests requests).Keeps (afterRequests (requests ++ later)) := by
  induction later using List.reverseRecOn with
  | nil =>
      rw [List.append_nil]
      exact fun _ _ h => h
  | append_singleton later q ih =>
      rw [← List.append_assoc, afterRequests_concat]
      exact fun name o h => Keeps.respond _ q name o (ih name o h)

/-- The names that a history leads to objects. -/
theorem isSome_lookup_afterRequests (requests : List SymbolRequest) (name : String) :
    ((afterRequests requests).entries.lookup name).isSome ↔
      IsPredefined name ∨ ∃ raw, .intern raw ∈ requests ∧ Text.upper raw = name := by
  induction requests using List.reverseRecOn with
  | nil =>
      rw [afterRequests, List.foldl_nil, isSome_lookup_seeded]
      simp
  | append_singleton requests q ih =>
      rw [afterRequests_concat, isSome_lookup_respond, ih]
      simp only [List.mem_append, List.mem_singleton]
      grind

/-! ## Answers -/

section Answers

variable {requests : List SymbolRequest} {i j : Nat} {q' : SymbolRequest} {o' : SymbolObject}

theorem answer?_eq (hq : requests[i]? = some q) :
    answer? requests i = ((afterRequests (requests.take i)).respond q).1 := by
  rw [answer?, hq, Option.bind_some]

theorem exists_request (h : answer? requests i = some o) : ∃ q, requests[i]? = some q := by
  cases hq : requests[i]? with
  | some q => exact ⟨q, rfl⟩
  | none =>
      rw [answer?, hq] at h
      cases h

/-- An answer is what the table has under the canonical spelling at the end of the history. -/
theorem lookup_of_answer? (hq : requests[i]? = some q) (h : answer? requests i = some o) :
    (afterRequests requests).entries.lookup (Text.upper q.spelling) = some o := by
  have hsplit : requests.take i ++ [q] ++ requests.drop (i + 1) = requests := by
    have htake : requests.take (i + 1) = requests.take i ++ [q] := by
      rw [List.take_add_one, hq, Option.toList_some]
    rw [← htake, List.take_append_drop]
  have hkeeps := keeps_afterRequests (requests.take i ++ [q]) (requests.drop (i + 1))
  rw [hsplit] at hkeeps
  rw [answer?_eq hq] at h
  apply hkeeps
  rw [afterRequests_concat]
  exact lookup_of_respond h

theorem symbol_of_answer? (hq : requests[i]? = some q) (h : answer? requests i = some o) :
    o.symbol = .ofName q.spelling :=
  Symbol.ext_name ((wellFormed_afterRequests requests).name_eq (lookup_of_answer? hq h))

theorem eq_of_upper_eq (hq : requests[i]? = some q) (hq' : requests[j]? = some q')
    (h : answer? requests i = some o) (h' : answer? requests j = some o')
    (hname : Text.upper q.spelling = Text.upper q'.spelling) : o = o' := by
  have hlookup := lookup_of_answer? hq h
  rw [hname, lookup_of_answer? hq' h'] at hlookup
  exact (Option.some.inj hlookup).symm

theorem upper_eq_of_serial_eq (hq : requests[i]? = some q) (hq' : requests[j]? = some q')
    (h : answer? requests i = some o) (h' : answer? requests j = some o')
    (hserial : o.serial = o'.serial) : Text.upper q.spelling = Text.upper q'.spelling :=
  (wellFormed_afterRequests requests).one_name (lookup_of_answer? hq h)
    (lookup_of_answer? hq' h') hserial

theorem answer?_intern {raw : String} (hq : requests[i]? = some (.intern raw)) :
    (answer? requests i).isSome := by
  rw [answer?_eq hq]
  rfl

theorem isSome_answer?_find {raw : String} (hq : requests[i]? = some (.find raw)) :
    (answer? requests i).isSome ↔ IsPredefined (Text.upper raw) ∨
      ∃ j < i, ∃ raw', requests[j]? = some (.intern raw') ∧ Text.upper raw' = Text.upper raw := by
  have hmem : ∀ raw', SymbolRequest.intern raw' ∈ requests.take i ↔
      ∃ j < i, requests[j]? = some (.intern raw') := by
    intro raw'
    simp [List.mem_iff_getElem?, List.getElem?_take]
  rw [answer?_eq hq, respond, findObject?, isSome_lookup_afterRequests]
  simp only [hmem]
  grind

/-- A name known from the start leads to the object that the table started with. -/
theorem answer?_predefined (hq : requests[i]? = some q)
    (hname : IsPredefined (Text.upper q.spelling)) :
    ∃ o, seeded.findObject? q.spelling = some o ∧ answer? requests i = some o := by
  obtain ⟨o, ho⟩ := Option.isSome_iff_exists.mp ((isSome_lookup_seeded _).mpr hname)
  refine ⟨o, ho, ?_⟩
  have hlookup : (afterRequests (requests.take i)).findObject? q.spelling = some o :=
    keeps_afterRequests [] (requests.take i) _ o ho
  rw [answer?_eq hq]
  cases q with
  | find raw => exact hlookup
  | intern raw =>
      rw [SymbolRequest.spelling] at hlookup
      rw [respond, internObject, hlookup]

end Answers

/-- What a history of requests shows of the symbols that answer them. -/
structure Consistent (requests : List SymbolRequest) : Prop where
  /-- Two answers are one object exactly if the spellings have one canonical form, and one object is
  the same in all it shows. -/
  same_iff : ∀ i j q q' o o', requests[i]? = some q → requests[j]? = some q' →
    answer? requests i = some o → answer? requests j = some o' →
    (o.serial = o'.serial ↔ Text.upper q.spelling = Text.upper q'.spelling) ∧
      (o.serial = o'.serial → o = o')
  /-- Interning always has an answer, named by the canonical spelling: the symbol that the spelling
  stands for without any table. -/
  intern_name : ∀ i raw, requests[i]? = some (.intern raw) →
    ∃ o, answer? requests i = some o ∧ o.symbol.name = Text.upper raw ∧
      ((afterRequests (requests.take i)).intern raw).1 = .ofName raw
  /-- Interning the name of a symbol gives the symbol back and adds nothing. -/
  intern_own_name : ∀ i o, answer? requests i = some o →
    (afterRequests requests).internObject o.symbol.name = (o, afterRequests requests)
  /-- A name is found if it is known from the start or was interned before. -/
  find_isSome_iff : ∀ i raw, requests[i]? = some (.find raw) →
    ((answer? requests i).isSome ↔ IsPredefined (Text.upper raw) ∨
      ∃ j < i, ∃ raw', requests[j]? = some (.intern raw') ∧ Text.upper raw' = Text.upper raw)
  /-- What is found is the object that was interned. -/
  find_eq : ∀ i j raw raw', requests[i]? = some (.find raw) → requests[j]? = some (.intern raw') →
    j < i → Text.upper raw' = Text.upper raw → answer? requests i = answer? requests j
  /-- A name known from the start leads to its first object at all times. -/
  predefined_eq : ∀ i q, requests[i]? = some q → IsPredefined (Text.upper q.spelling) →
    ∃ o, seeded.findObject? q.spelling = some o ∧ answer? requests i = some o
  /-- An object knows the operator of its name. -/
  builtin_eq : ∀ i o, answer? requests i = some o → o.builtin = Builtin.named? o.symbol.name

/-- Over every history of interning and finding, canonical names and symbols are in bijection. -/
theorem interning_consistent (requests : List SymbolRequest) : Consistent requests := by
  have ht := wellFormed_afterRequests requests
  refine ⟨?_, ?_, ?_, ?_, ?_, ?_, ?_⟩
  · intro i j q q' o o' hq hq' h h'
    have hname := upper_eq_of_serial_eq hq hq' h h'
    refine ⟨⟨hname, fun heq => ?_⟩, fun hserial => eq_of_upper_eq hq hq' h h' (hname hserial)⟩
    rw [eq_of_upper_eq hq hq' h h' heq]
  · intro i raw hq
    obtain ⟨o, h⟩ := Option.isSome_iff_exists.mp (answer?_intern hq)
    have hsymbol := symbol_of_answer? hq h
    refine ⟨o, h, congrArg Symbol.name hsymbol, ?_⟩
    rw [answer?_eq hq] at h
    cases h
    exact hsymbol
  · intro i o h
    obtain ⟨q, hq⟩ := exists_request h
    have hlookup := lookup_of_answer? hq h
    have hfind : (afterRequests requests).findObject? o.symbol.name = some o := by
      rw [findObject?, o.symbol.canonical, ht.name_eq hlookup]
      exact hlookup
    rw [internObject, hfind]
  · intro i raw hq
    exact isSome_answer?_find hq
  · intro i j raw raw' hq hq' hji hname
    obtain ⟨o', h'⟩ := Option.isSome_iff_exists.mp (answer?_intern hq')
    have hfound := (isSome_answer?_find hq).mpr (.inr ⟨j, hji, raw', hq', hname⟩)
    obtain ⟨o, h⟩ := Option.isSome_iff_exists.mp hfound
    rw [h, h', eq_of_upper_eq hq hq' h h' hname.symm]
  · intro i q hq hname
    exact answer?_predefined hq hname
  · intro i o h
    obtain ⟨q, hq⟩ := exists_request h
    have hlookup := lookup_of_answer? hq h
    rw [ht.builtin_eq hlookup, ht.name_eq hlookup]

example :
    let history : List SymbolRequest :=
      [.find "straße", .intern "Straße", .find "STRASSE", .intern "car"]
    answer? history 0 = none ∧ answer? history 2 = answer? history 1 ∧
      (answer? history 1).map SymbolObject.serial = some 20 ∧
      (answer? history 3).map SymbolObject.builtin = some (some (.primitive .car)) := by
  decide +kernel

end SymbolTable

end Lisp
