import Lisp.Proofs.Reader.Tokens
import Lisp.Proofs.Text.Decimal

/-! # The grammar of expressions

`DerivesExpr` and `DerivesList` are the grammar over tokens, written as it is spoken. The reader
goes through the tokens once with a stack. `Consumed` says which tokens lead to which stack: it
holds at the start, every token keeps it, and it turns a completed expression into a derivation. -/

namespace Lisp

/-! ## Derivations -/

/-- What an atom stands for: a number if its text is an integer of 64 bits, and otherwise the
symbol of its name in upper case. -/
inductive AtomDenotes (text : String) : Datum → Prop
  | number {n : Int} : Text.Decimal.IsInteger text.toList n → -2 ^ 63 ≤ n → n < 2 ^ 63 →
      AtomDenotes text (.number (Int64.ofInt n))
  | symbol : (∀ n, Text.Decimal.IsInteger text.toList n → ¬(-2 ^ 63 ≤ n ∧ n < 2 ^ 63)) →
      AtomDenotes text (.symbol (.ofName text))

theorem atomDenotes_ofAtom (text : String) : AtomDenotes text (.ofAtom text) := by
  rw [Datum.ofAtom]
  split
  · rename_i k hk
    obtain ⟨n, hn, hlow, hhigh, rfl⟩ := Text.Decimal.readInt64?_eq_some_iff.mp hk
    exact .number hn hlow hhigh
  · rename_i hk
    refine .symbol fun n hn hrange => ?_
    have hsome : Text.Decimal.readInt64? text.toList = some (Int64.ofInt n) :=
      Text.Decimal.readInt64?_eq_some_iff.mpr ⟨n, hn, hrange.1, hrange.2, rfl⟩
    rw [hk] at hsome
    cases hsome

theorem AtomDenotes.eq_ofAtom {text : String} {d : Datum} (h : AtomDenotes text d) :
    d = .ofAtom text := by
  rw [Datum.ofAtom]
  cases h with
  | number hn hlow hhigh =>
      rw [Text.Decimal.readInt64?_eq_some_iff.mpr ⟨_, hn, hlow, hhigh, rfl⟩]
  | symbol hnone =>
      cases hk : Text.Decimal.readInt64? text.toList with
      | none => rfl
      | some k =>
          obtain ⟨n, hn, hlow, hhigh, -⟩ := Text.Decimal.readInt64?_eq_some_iff.mp hk
          exact absurd ⟨hlow, hhigh⟩ (hnone n hn)

mutual

/-- The tokens are an expression that denotes the datum. -/
inductive DerivesExpr : List Token → Datum → Prop
  | atom {text : String} {d : Datum} : AtomDenotes text d → DerivesExpr [.atom text] d
  | list {ts : List Token} {d : Datum} : DerivesList ts d → DerivesExpr (.opening :: ts) d
  | quote {ts : List Token} {d : Datum} : DerivesExpr ts d →
      DerivesExpr (.quote :: ts)
        (.cons (.symbol (Builtin.symbol (.special .quote))) (.cons d .nil))

/-- The tokens are what follows the opening parenthesis of a list that denotes the datum. -/
inductive DerivesList : List Token → Datum → Prop
  | close : DerivesList [.closing] .nil
  | dotted {ts us : List Token} {a d : Datum} : DerivesExpr ts a → DerivesExpr us d →
      DerivesList (ts ++ .dot :: us ++ [.closing]) (.cons a d)
  | more {ts us : List Token} {a d : Datum} : DerivesExpr ts a → DerivesList us d →
      DerivesList (ts ++ us) (.cons a d)

end

theorem DerivesExpr.ne_nil {ts : List Token} {d : Datum} (h : DerivesExpr ts d) : ts ≠ [] := by
  cases h <;> simp

namespace ReaderState

variable {limit : Option Nat} {stack : List Enclosing}

/-! ## The reader follows every derivation -/

/-- Goes on with the tokens after an expression inside `stack` was completed. -/
def resume (limit : Option Nat) (d : Datum) : List Enclosing → List LocatedToken → FeedOutcome
  | [], ts => .done d ts
  | .quote :: stack, ts => resume limit d.quote stack ts
  | .elements rev :: stack, ts => feedAll limit (awaiting (.elements (d :: rev) :: stack)) ts
  | .tail rev :: stack, ts => feedAll limit (closing rev d stack) ts

theorem feedAll_of_complete {state : ReaderState} {t : LocatedToken} {d : Datum}
    (h : state.feed limit t.token = complete d stack) (ts : List LocatedToken) :
    state.feedAll limit (t :: ts) = resume limit d stack ts := by
  induction stack generalizing d with
  | nil => exact feedAll_of_done h ts
  | cons enclosing stack ih =>
      cases enclosing with
      | quote => exact ih h
      | elements rev => exact feedAll_of_more h ts
      | tail rev => exact feedAll_of_more h ts

/-- Only a closing parenthesis and a dot can mean something else than the start of an expression. -/
theorem feed_awaiting {t : Token} (hclosing : t ≠ .closing) (hdot : t ≠ .dot) :
    feed limit (awaiting stack) t = begin limit stack t := by
  cases stack with
  | nil => rfl
  | cons enclosing stack =>
      cases enclosing <;> cases t <;> first | rfl | contradiction

theorem feed_opening : feed none (awaiting stack) .opening = .more (awaiting (.elements [] :: stack)) :=
  feed_awaiting (by decide) (by decide)

theorem feed_quote : feed none (awaiting stack) .quote = .more (awaiting (.quote :: stack)) :=
  feed_awaiting (by decide) (by decide)

theorem feed_atom (text : String) :
    feed none (awaiting stack) (.atom text) = complete (.ofAtom text) stack :=
  feed_awaiting (by simp) (by simp)

theorem feed_closing_elements (rev : List Datum) :
    feed limit (awaiting (.elements rev :: stack)) .closing =
      complete (.ofList rev.reverse .nil) stack := rfl

theorem feed_dot_elements (d : Datum) (rev : List Datum) :
    feed limit (awaiting (.elements (d :: rev) :: stack)) .dot =
      .more (awaiting (.tail (d :: rev) :: stack)) := rfl

theorem feed_closing_tail (rev : List Datum) (d : Datum) :
    feed limit (closing rev d stack) .closing = complete (.ofList rev.reverse d) stack := rfl

mutual

/-- After the tokens of an expression the reader goes on behind it. -/
theorem feedAll_derivesExpr {p : List Token} {d : Datum} (h : DerivesExpr p d)
    {ts : List LocatedToken} (hts : ts.map LocatedToken.token = p) (stack : List Enclosing)
    (rest : List LocatedToken) :
    feedAll none (awaiting stack) (ts ++ rest) = resume none d stack rest := by
  cases h with
  | atom hd =>
      obtain ⟨t, us, rfl, ht, hus⟩ := List.map_eq_cons_iff.mp hts
      obtain rfl := List.map_eq_nil_iff.mp hus
      rw [hd.eq_ofAtom]
      exact feedAll_of_complete (ht ▸ feed_atom _) rest
  | list hlist =>
      obtain ⟨t, us, rfl, ht, hus⟩ := List.map_eq_cons_iff.mp hts
      rw [List.cons_append, feedAll_of_more (ht ▸ feed_opening)]
      exact feedAll_derivesList hlist hus [] stack rest
  | quote hexpr =>
      obtain ⟨t, us, rfl, ht, hus⟩ := List.map_eq_cons_iff.mp hts
      rw [List.cons_append, feedAll_of_more (ht ▸ feed_quote)]
      exact feedAll_derivesExpr hexpr hus (.quote :: stack) rest

/-- After the tokens of a list the reader has put what they denote behind the elements before. -/
theorem feedAll_derivesList {p : List Token} {d : Datum} (h : DerivesList p d)
    {ts : List LocatedToken} (hts : ts.map LocatedToken.token = p) (rev : List Datum)
    (stack : List Enclosing) (rest : List LocatedToken) :
    feedAll none (awaiting (.elements rev :: stack)) (ts ++ rest) =
      resume none (.ofList rev.reverse d) stack rest := by
  cases h with
  | close =>
      obtain ⟨t, us, rfl, ht, hus⟩ := List.map_eq_cons_iff.mp hts
      obtain rfl := List.map_eq_nil_iff.mp hus
      exact feedAll_of_complete (ht ▸ feed_closing_elements rev) rest
  | @more _ _ a d hexpr hlist =>
      obtain ⟨ts₁, ts₂, rfl, h₁, h₂⟩ := List.map_eq_append_iff.mp hts
      rw [List.append_assoc, feedAll_derivesExpr hexpr h₁]
      have hrest := feedAll_derivesList hlist h₂ (a :: rev) stack rest
      simpa [resume, Datum.ofList] using hrest
  | @dotted _ _ a d hfirst htail =>
      obtain ⟨ts₁, ts₂, rfl, h₁, h₂⟩ := List.map_eq_append_iff.mp hts
      obtain ⟨ts₃, ts₄, rfl, h₃, h₄⟩ := List.map_eq_append_iff.mp h₁
      obtain ⟨tdot, ts₅, rfl, hdot, h₅⟩ := List.map_eq_cons_iff.mp h₄
      obtain ⟨tclose, ts₆, rfl, hclose, h₆⟩ := List.map_eq_cons_iff.mp h₂
      obtain rfl := List.map_eq_nil_iff.mp h₆
      simp only [List.append_assoc, List.cons_append, List.nil_append]
      have hdot' : feed none (awaiting (.elements (a :: rev) :: stack)) tdot.token =
          .more (awaiting (.tail (a :: rev) :: stack)) := hdot ▸ feed_dot_elements a rev
      have hclose' : feed none (closing (a :: rev) d stack) tclose.token =
          complete (.ofList (a :: rev).reverse d) stack := hclose ▸ feed_closing_tail (a :: rev) d
      rw [feedAll_derivesExpr hfirst h₃, resume, feedAll_of_more hdot',
        feedAll_derivesExpr htail h₅, resume, feedAll_of_complete hclose']
      simp [Datum.ofList]

end

end ReaderState

/-! ## The tokens that lead to a stack -/

/-- The tokens are expressions one after the other; the data they denote stand newest first. -/
inductive DerivesReversed : List Token → List Datum → Prop
  | nil : DerivesReversed [] []
  | snoc {ts us : List Token} {rev : List Datum} {d : Datum} : DerivesReversed ts rev →
      DerivesExpr us d → DerivesReversed (ts ++ us) (d :: rev)

/-- Elements in front of a list make a longer list. -/
theorem DerivesReversed.append_list {ts us : List Token} {rev : List Datum} {d : Datum}
    (h : DerivesReversed ts rev) (hlist : DerivesList us d) :
    DerivesList (ts ++ us) (.ofList rev.reverse d) := by
  induction h generalizing us d with
  | nil => exact hlist
  | snoc _ hexpr ih =>
      have hmore := ih (.more hexpr hlist)
      simpa [Datum.ofList] using hmore

/-- A dotted list from its elements and its tail. -/
theorem DerivesReversed.dotted {ts us : List Token} {rev : List Datum} {d : Datum}
    (h : DerivesReversed ts rev) (hne : rev ≠ []) (htail : DerivesExpr us d) :
    DerivesList (ts ++ .dot :: us ++ [.closing]) (.ofList rev.reverse d) := by
  cases h with
  | nil => exact absurd rfl hne
  | snoc hinit hlast =>
      have hlist := hinit.append_list (.dotted hlast htail)
      simpa [Datum.ofList] using hlist

/-- The tokens open the constructs of the stack and fill them so far. -/
inductive Opened : List Token → List Enclosing → Prop
  | nil : Opened [] []
  | quote {p : List Token} {stack : List Enclosing} : Opened p stack →
      Opened (p ++ [.quote]) (.quote :: stack)
  | elements {p q : List Token} {rev : List Datum} {stack : List Enclosing} : Opened p stack →
      DerivesReversed q rev → Opened (p ++ .opening :: q) (.elements rev :: stack)
  | tail {p q : List Token} {rev : List Datum} {stack : List Enclosing} : Opened p stack →
      DerivesReversed q rev → rev ≠ [] →
      Opened (p ++ .opening :: q ++ [.dot]) (.tail rev :: stack)

/-- The tokens lead from the start to the state. -/
inductive Consumed : List Token → ReaderState → Prop
  | awaiting {p : List Token} {stack : List Enclosing} : Opened p stack →
      Consumed p (.awaiting stack)
  | closing {p q : List Token} {rev : List Datum} {d : Datum} {stack : List Enclosing} :
      Opened p (.tail rev :: stack) → DerivesExpr q d → Consumed (p ++ q) (.closing rev d stack)

/-- What a step after the tokens `p` must be: a state they lead to, the datum they denote, or a
refusal as invalid. -/
def ReaderStep.Sound (p : List Token) : ReaderStep → Prop
  | .more state => Consumed p state
  | .done d => DerivesExpr p d
  | .fail f => f.kind = .invalid

theorem Opened.sound_complete {p q : List Token} {stack : List Enclosing} {d : Datum}
    (h : Opened p stack) (hq : DerivesExpr q d) :
    (ReaderState.complete d stack).Sound (p ++ q) := by
  induction h generalizing q d with
  | nil => exact hq
  | quote _ ih =>
      rw [List.append_assoc]
      exact ih (.quote hq)
  | elements hopen hrev =>
      rw [List.append_assoc]
      exact .awaiting (.elements hopen (.snoc hrev hq))
  | tail hopen hrev hne => exact .closing (.tail hopen hrev hne) hq

/-- Every token keeps the relation between tokens and state. -/
theorem Consumed.sound_feed {p : List Token} {state : ReaderState} (h : Consumed p state)
    (t : Token) : (state.feed none t).Sound (p ++ [t]) := by
  cases h with
  | awaiting hopen =>
      cases t with
      | opening =>
          rw [ReaderState.feed_opening]
          exact .awaiting (.elements hopen .nil)
      | quote =>
          rw [ReaderState.feed_quote]
          exact .awaiting (.quote hopen)
      | atom text =>
          rw [ReaderState.feed_atom]
          exact hopen.sound_complete (.atom (atomDenotes_ofAtom text))
      | closing =>
          cases hopen with
          | nil => rfl
          | quote hopen => rfl
          | tail hopen hrev hne => rfl
          | elements hopen hrev =>
              rw [ReaderState.feed_closing_elements, List.append_assoc]
              exact hopen.sound_complete (.list (hrev.append_list .close))
      | dot =>
          cases hopen with
          | nil => rfl
          | quote hopen => rfl
          | tail hopen hrev hne => rfl
          | @elements p q rev stack hopen hrev =>
              cases rev with
              | nil => rfl
              | cons d rev => exact .awaiting (.tail hopen hrev (by simp))
  | closing hopen hq =>
      cases t with
      | closing =>
          cases hopen with
          | tail hopen hrev hne =>
              rw [ReaderState.feed_closing_tail]
              have hlist := hopen.sound_complete (.list (hrev.dotted hne hq))
              simpa using hlist
      | opening => rfl
      | quote => rfl
      | atom text => rfl
      | dot => rfl

/-! ## Whole sequences of tokens -/

/-- What the tokens `ts`, fed after `p`, may lead to. -/
theorem Consumed.feedAll {p : List Token} {state : ReaderState} (h : Consumed p state)
    (ts : List LocatedToken) :
    match state.feedAll none ts with
    | .pending state' => Consumed (p ++ ts.map LocatedToken.token) state'
    | .done d rest => ∃ q, ts = q ++ rest ∧ DerivesExpr (p ++ q.map LocatedToken.token) d
    | .refused f _ _ => f.kind = .invalid := by
  induction ts generalizing p state with
  | nil => simpa [ReaderState.feedAll] using h
  | cons t ts ih =>
      have hsound := h.sound_feed t.token
      cases hfeed : state.feed none t.token with
      | fail f =>
          rw [ReaderState.feedAll_of_fail hfeed]
          rw [hfeed] at hsound
          exact hsound
      | done d =>
          rw [ReaderState.feedAll_of_done hfeed]
          rw [hfeed] at hsound
          exact ⟨[t], rfl, hsound⟩
      | more state' =>
          rw [ReaderState.feedAll_of_more hfeed]
          rw [hfeed] at hsound
          have hrest := ih hsound
          split at hrest
          · simpa using hrest
          · obtain ⟨q, rfl, hq⟩ := hrest
            exact ⟨t :: q, rfl, by simpa using hq⟩
          · exact hrest

/-! ### Tokens that are not yet an expression can be completed -/

theorem Opened.completes {p q : List Token} {stack : List Enclosing} {d : Datum}
    (h : Opened p stack) (hq : DerivesExpr q d) :
    ∃ us d', DerivesExpr (p ++ q ++ us) d' := by
  induction h generalizing q d with
  | nil => exact ⟨[], d, by simpa using hq⟩
  | quote _ ih =>
      obtain ⟨us, d', h⟩ := ih (.quote hq)
      exact ⟨us, d', by simpa using h⟩
  | elements _ hrev ih =>
      obtain ⟨us, d', h⟩ := ih (.list ((hrev.snoc hq).append_list .close))
      exact ⟨.closing :: us, d', by simpa using h⟩
  | tail _ hrev hne ih =>
      obtain ⟨us, d', h⟩ := ih (.list (hrev.dotted hne hq))
      exact ⟨.closing :: us, d', by simpa using h⟩

theorem Consumed.completes {p : List Token} {state : ReaderState} (h : Consumed p state) :
    ∃ us d, us ≠ [] ∧ DerivesExpr (p ++ us) d := by
  cases h with
  | awaiting hopen =>
      obtain ⟨us, d, h⟩ := hopen.completes (.atom (atomDenotes_ofAtom "NIL"))
      exact ⟨.atom "NIL" :: us, d, by simp, by simpa using h⟩
  | closing hopen hq =>
      cases hopen with
      | tail hopen hrev hne =>
          obtain ⟨us, d, h⟩ := hopen.completes (.list (hrev.dotted hne hq))
          exact ⟨.closing :: us, d, by simp, by simpa using h⟩

/-- A text that ends inside an expression lacks something. -/
theorem Consumed.kind_endFault {p : List Token} {state : ReaderState} (h : Consumed p state)
    (hp : p ≠ []) : state.endFault.kind = .incomplete := by
  cases h with
  | closing hopen hq => rfl
  | awaiting hopen =>
      cases hopen with
      | nil => exact absurd rfl hp
      | quote hopen => rfl
      | elements hopen hrev => rfl
      | tail hopen hrev hne => rfl

/-! ### What the tokens lead to is what the grammar says of them -/

namespace ReaderState

variable {ts : List LocatedToken}

theorem consumed_start : Consumed [] start := .awaiting .nil

theorem feedAll_start_eq_done_iff {d : Datum} {rest : List LocatedToken} :
    start.feedAll none ts = .done d rest ↔
      ∃ q, ts = q ++ rest ∧ DerivesExpr (q.map LocatedToken.token) d := by
  constructor
  · intro h
    have hsound := consumed_start.feedAll ts
    rw [h] at hsound
    exact hsound
  · rintro ⟨q, rfl, hq⟩
    exact feedAll_derivesExpr hq rfl [] rest

theorem feedAll_start_eq_pending_iff :
    (∃ state, start.feedAll none ts = .pending state) ↔
      ∃ us d, us ≠ [] ∧ DerivesExpr (ts.map LocatedToken.token ++ us) d := by
  constructor
  · rintro ⟨state, h⟩
    have hsound := consumed_start.feedAll ts
    rw [h] at hsound
    exact hsound.completes
  · rintro ⟨us, d, hne, hd⟩
    -- the missing tokens may stand anywhere
    let us' : List LocatedToken := us.map fun t => ⟨t, 0⟩
    have htokens : (ts ++ us').map LocatedToken.token = ts.map LocatedToken.token ++ us := by
      simp [us', Function.comp_def]
    have hdone : start.feedAll none (ts ++ us') = .done d [] := by
      have h := feedAll_derivesExpr hd htokens [] []
      rwa [List.append_nil] at h
    rw [feedAll_append] at hdone
    split at hdone
    · rename_i state hpending
      exact ⟨state, hpending⟩
    · simp [us', hne] at hdone
    · cases hdone

theorem feedAll_start_eq_refused_iff :
    (∃ f t rest, start.feedAll none ts = .refused f t rest) ↔
      (∀ p d, p <+: ts.map LocatedToken.token → ¬ DerivesExpr p d) ∧
        ∀ us d, ¬ DerivesExpr (ts.map LocatedToken.token ++ us) d := by
  constructor
  · rintro ⟨f, t, rest, hout⟩
    have hnone : ∀ p d, p <+: ts.map LocatedToken.token → ¬ DerivesExpr p d := by
      rintro p d ⟨us, hus⟩ hd
      obtain ⟨q, us', hq, rfl, -⟩ := List.map_eq_append_iff.mp hus.symm
      cases hout.symm.trans (feedAll_start_eq_done_iff.mpr ⟨q, hq, hd⟩)
    refine ⟨hnone, fun us d hd => ?_⟩
    by_cases hne : us = []
    · subst us
      rw [List.append_nil] at hd
      exact hnone _ d (List.prefix_refl _) hd
    · obtain ⟨state, hpending⟩ := feedAll_start_eq_pending_iff.mpr ⟨us, d, hne, hd⟩
      cases hout.symm.trans hpending
  · rintro ⟨hnone, hmore⟩
    cases hout : start.feedAll none ts with
    | refused f t rest => exact ⟨f, t, rest, rfl⟩
    | pending state =>
        obtain ⟨us, d, -, hd⟩ := feedAll_start_eq_pending_iff.mp ⟨state, hout⟩
        exact absurd hd (hmore us d)
    | done d rest =>
        obtain ⟨q, hq, hd⟩ := feedAll_start_eq_done_iff.mp hout
        refine absurd hd (hnone _ d ⟨rest.map LocatedToken.token, ?_⟩)
        rw [← List.map_append, ← hq]

end ReaderState

namespace Reader

variable {r : Reader} {d : Datum} {p : List Token}

theorem tokens_ne_nil_iff {s : TokenStream} : s.tokens ≠ [] ↔ s.located ≠ [] := by
  simp [TokenStream.tokens]

/-- Reading gives a datum exactly for tokens that derive it, and consumes those. -/
theorem read?_ok_iff (hlimit : r.limit = none) :
    (∃ r', r.read? = some (.ok d, r') ∧ r.stream.tokens = p ++ r'.stream.tokens) ↔
      p <+: r.stream.tokens ∧ DerivesExpr p d := by
  constructor
  · rintro ⟨r', hread, htokens⟩
    have hout := feedAll_of_read?_ok hread
    rw [hlimit] at hout
    obtain ⟨q, hq, hderives⟩ := ReaderState.feedAll_start_eq_done_iff.mp hout
    have hp : p = q.map LocatedToken.token := by
      refine List.append_cancel_right (htokens.symm.trans ?_)
      rw [TokenStream.tokens, TokenStream.tokens, hq, List.map_append]
    exact ⟨⟨_, htokens.symm⟩, hp ▸ hderives⟩
  · rintro ⟨⟨rest, htokens⟩, hderives⟩
    obtain ⟨q, us, hq, rfl, rfl⟩ := List.map_eq_append_iff.mp htokens.symm
    have hne : r.stream.located ≠ [] := by
      rw [hq]
      rintro hnil
      obtain rfl := (List.append_eq_nil_iff.mp hnil).1
      exact hderives.ne_nil rfl
    have hout : ReaderState.start.feedAll r.limit r.stream.located = .done d us := by
      rw [hlimit]
      exact ReaderState.feedAll_start_eq_done_iff.mpr ⟨q, hq, hderives⟩
    obtain ⟨r', hread, hrest⟩ := read?_of_done hne hout
    refine ⟨r', hread, ?_⟩
    rw [← htokens, TokenStream.tokens, hrest]

/-- The kind of the error, if tokens are left and the expression at their front is not read. -/
theorem read?_error_kind_iff (hlimit : r.limit = none) (kind : ReadErrorKind) :
    (∃ e r', r.read? = some (.error e, r') ∧ e.kind = kind) ↔
      r.stream.tokens ≠ [] ∧
        ((kind = .incomplete ∧
            ∃ state, ReaderState.start.feedAll none r.stream.located = .pending state) ∨
          (kind = .invalid ∧
            ∃ f t rest, ReaderState.start.feedAll none r.stream.located = .refused f t rest)) := by
  rw [tokens_ne_nil_iff]
  have hsound := ReaderState.consumed_start.feedAll r.stream.located
  constructor
  · rintro ⟨e, r', hread, rfl⟩
    have hne := located_ne_nil hread
    refine ⟨hne, ?_⟩
    cases hout : ReaderState.start.feedAll none r.stream.located with
    | done d rest =>
        obtain ⟨r'', hread', -⟩ := read?_of_done hne (hlimit ▸ hout)
        cases hread.symm.trans hread'
    | pending state =>
        obtain ⟨e', r'', hread', hkind⟩ := read?_of_pending hne (hlimit ▸ hout)
        cases hread.symm.trans hread'
        rw [hout] at hsound
        exact .inl ⟨hkind.trans (hsound.kind_endFault (by simpa using hne)), state, rfl⟩
    | refused f t rest =>
        obtain ⟨e', r'', hread', hkind⟩ := read?_of_refused hne (hlimit ▸ hout)
        cases hread.symm.trans hread'
        rw [hout] at hsound
        exact .inr ⟨hkind.trans hsound, f, t, rest, rfl⟩
  · rintro ⟨hne, ⟨rfl, state, hout⟩ | ⟨rfl, f, t, rest, hout⟩⟩
    · obtain ⟨e, r', hread, hkind⟩ := read?_of_pending hne (hlimit ▸ hout)
      rw [hout] at hsound
      exact ⟨e, r', hread, hkind.trans (hsound.kind_endFault (by simpa using hne))⟩
    · obtain ⟨e, r', hread, hkind⟩ := read?_of_refused hne (hlimit ▸ hout)
      rw [hout] at hsound
      exact ⟨e, r', hread, hkind.trans hsound⟩

end Reader

/-- Without a depth limit the reader accepts exactly the grammar. It gives a datum and consumes the
tokens `p` if `p` derives the datum, nothing if no token is left, an incomplete error if the
tokens left are the beginning of an expression but not all of it, and an invalid one if neither
an expression begins them nor they begin an expression. -/
theorem read?_accepts_exactly_grammar (source : String) (stream : TokenStream) :
    let r : Reader := ⟨source, stream, none⟩
    (∀ p d, (∃ r', r.read? = some (.ok d, r') ∧ stream.tokens = p ++ r'.stream.tokens) ↔
      p <+: stream.tokens ∧ DerivesExpr p d) ∧
    (r.read? = none ↔ stream.tokens = []) ∧
    ((∃ e r', r.read? = some (.error e, r') ∧ e.kind = .incomplete) ↔
      stream.tokens ≠ [] ∧ ∃ us d, us ≠ [] ∧ DerivesExpr (stream.tokens ++ us) d) ∧
    ((∃ e r', r.read? = some (.error e, r') ∧ e.kind = .invalid) ↔
      stream.tokens ≠ [] ∧ (∀ p d, p <+: stream.tokens → ¬ DerivesExpr p d) ∧
        ∀ us d, ¬ DerivesExpr (stream.tokens ++ us) d) := by
  intro r
  refine ⟨fun p d => Reader.read?_ok_iff rfl, ?_, ?_, ?_⟩
  · rw [r.read?_eq_none_iff]
    simp [r, TokenStream.tokens]
  · rw [Reader.read?_error_kind_iff rfl]
    simp [r, ReaderState.feedAll_start_eq_pending_iff, TokenStream.tokens]
  · rw [Reader.read?_error_kind_iff rfl]
    simp [r, ReaderState.feedAll_start_eq_refused_iff, TokenStream.tokens]

end Lisp
