import Lisp.Proofs.Reader.Tokens

/-! # How deep a text nests

`TokenStream.starts` lists the expressions that begin while one is read without a limit, each with
its depth, which is the number of constructs around it. A limit does nothing until one of them is
too deep, and then refuses its first token: `TokenStream.readFrom_limit`. -/

namespace Lisp

/-! ## Tokens that begin an expression -/

namespace ReaderState

/-- The depth at which the token begins an expression. The end and the dot of a list begin none,
and neither does anything behind the tail of a dotted list. -/
def depth? : ReaderState → Token → Option Nat
  | closing .., _ => none
  | awaiting (.elements _ :: _), .closing => none
  | awaiting (.elements _ :: _), .dot => none
  | awaiting stack, _ => some stack.length

/-- How many constructs were entered and are not finished. -/
def height : ReaderState → Nat
  | awaiting stack => stack.length
  | closing _ _ stack => stack.length

variable {state state' : ReaderState} {t : Token} {k m : Nat}

/-- A token that begins an expression is fed as the first one of it, at the height reached. -/
theorem feed_of_depth?_eq_some (h : state.depth? t = some k) :
    ∃ stack, stack.length = k ∧ state.height = k ∧
      ∀ limit, state.feed limit t = begin limit stack t := by
  unfold depth? at h
  split at h
  · cases h
  · cases h
  · cases h
  · rename_i t stack hclosing hdot
    have hlength := Option.some.inj h
    refine ⟨stack, hlength, hlength, fun limit => ?_⟩
    unfold feed
    split <;> simp_all

/-- The limit does not matter to a token that begins nothing. -/
theorem feed_of_depth?_eq_none (h : state.depth? t = none) (limit : Option Nat) :
    state.feed limit t = state.feed none t := by
  unfold depth? at h
  split at h
  · cases t <;> rfl
  · rfl
  · rename_i rev _
    cases rev <;> rfl
  · cases h

theorem begin_of_isTooDeep {limit : Option Nat} {stack : List Enclosing}
    (h : isTooDeep limit stack = true) :
    begin limit stack t = .fail (.tooDeeplyNested (limit.getD 0)) := by
  unfold begin
  exact if_pos h

theorem begin_of_fits {limit : Option Nat} {stack : List Enclosing}
    (h : isTooDeep limit stack = false) : begin limit stack t = begin none stack t := by
  unfold begin
  rw [h]
  rfl

/-- A token fits the limit unless it begins an expression that is too deep. -/
theorem fits_or_tooDeep (m : Nat) (state : ReaderState) (t : Token) :
    (∀ k, state.depth? t = some k → k < m) ∨ ∃ k, state.depth? t = some k ∧ m ≤ k := by
  cases h : state.depth? t with
  | none => exact .inl nofun
  | some k =>
      rcases Nat.lt_or_ge k m with hk | hk
      · left
        rintro _ ⟨⟩
        exact hk
      · exact .inr ⟨k, rfl, hk⟩

theorem feed_of_fits (hfits : ∀ k, state.depth? t = some k → k < m) :
    state.feed (some m) t = state.feed none t := by
  cases h : state.depth? t with
  | none => exact feed_of_depth?_eq_none h _
  | some k =>
      have hk := hfits k h
      obtain ⟨stack, rfl, -, hfeed⟩ := feed_of_depth?_eq_some h
      rw [hfeed, hfeed]
      exact begin_of_fits (by simpa [isTooDeep] using hk)

theorem feed_of_tooDeep (h : state.depth? t = some k) (hk : m ≤ k) :
    state.feed (some m) t = .fail (.tooDeeplyNested m) := by
  obtain ⟨stack, rfl, -, hfeed⟩ := feed_of_depth?_eq_some h
  rw [hfeed]
  exact begin_of_isTooDeep (by simpa [isTooDeep] using hk)

/-! One token adds at most one construct, and only if it begins an expression. -/

theorem height_of_complete {d : Datum} {stack : List Enclosing}
    (h : complete d stack = .more state') : state'.height ≤ stack.length := by
  induction stack generalizing d with
  | nil => cases h
  | cons enclosing stack ih =>
      cases enclosing with
      | quote => exact Nat.le_succ_of_le (ih h)
      | elements rev =>
          cases h
          exact Nat.le_refl _
      | tail rev =>
          cases h
          exact Nat.le_succ _

theorem height_of_begin {stack : List Enclosing} (h : begin none stack t = .more state') :
    state'.height ≤ stack.length + 1 := by
  cases t with
  | opening =>
      cases h
      exact Nat.le_refl _
  | quote =>
      cases h
      exact Nat.le_refl _
  | atom text => exact Nat.le_succ_of_le (height_of_complete h)
  | closing => cases h
  | dot => cases h

theorem height_of_feed_none (h : state.depth? t = none) (hfeed : state.feed none t = .more state') :
    state'.height ≤ state.height := by
  unfold feed at hfeed
  split at hfeed
  · exact height_of_complete hfeed
  · cases hfeed
  · exact Nat.le_succ_of_le (height_of_complete hfeed)
  · cases hfeed
  · cases hfeed
    exact Nat.le_refl _
  · -- a token that begins something
    unfold depth? at h
    split at h <;> simp_all

/-- A token that fits the limit does not lead above it. -/
theorem height_of_fits (hheight : state.height ≤ m)
    (hfits : ∀ k, state.depth? t = some k → k < m) (hfeed : state.feed none t = .more state') :
    state'.height ≤ m := by
  cases h : state.depth? t with
  | none => exact Nat.le_trans (height_of_feed_none h hfeed) hheight
  | some k =>
      have hk := hfits k h
      obtain ⟨stack, rfl, -, hbegin⟩ := feed_of_depth?_eq_some h
      rw [hbegin] at hfeed
      exact Nat.le_trans (height_of_begin hfeed) hk

end ReaderState

/-! ## The expressions that begin in a read -/

/-- Where an expression begins: its first token, the number of constructs around it, and what is
left of the stream behind that token. -/
structure ExpressionStart where
  token : LocatedToken
  depth : Nat
  after : TokenStream

/-- The expressions that begin while one is read without a limit, in the order of the text. -/
def TokenStream.starts (s : TokenStream) (state : ReaderState) : List ExpressionStart :=
  match _ : s.next? with
  | none => []
  | some (t, s') =>
    ((state.depth? t.token).map fun k => ⟨t, k, s'⟩).toList ++
      match state.feed none t.token with
      | .more state' => s'.starts state'
      | .done _ | .fail _ => []
termination_by s.size
decreasing_by exact size_next?_lt ‹_›

namespace TokenStream

variable {s s' : TokenStream} {state : ReaderState} {t : LocatedToken} {m : Nat}

theorem starts_of_none (h : s.next? = none) (state : ReaderState) : s.starts state = [] := by
  rw [starts]
  split
  · rfl
  · rename_i h'
    rw [h] at h'
    cases h'

theorem starts_of_some (h : s.next? = some (t, s')) (state : ReaderState) :
    s.starts state = ((state.depth? t.token).map fun k => ⟨t, k, s'⟩).toList ++
      match state.feed none t.token with
      | .more state' => s'.starts state'
      | .done _ | .fail _ => [] := by
  rw [starts]
  split
  · rename_i h'
    rw [h] at h'
    cases h'
  · rename_i h'
    rw [h] at h'
    cases h'
    rfl

/-- The first expression that begins inside `m` constructs or more. -/
def firstTooDeep (m : Nat) (s : TokenStream) (state : ReaderState) : Option ExpressionStart :=
  (s.starts state).find? fun b => decide (m ≤ b.depth)

theorem firstTooDeep_of_none (h : s.next? = none) : s.firstTooDeep m state = none := by
  rw [firstTooDeep, starts_of_none h, List.find?_nil]

theorem firstTooDeep_of_tooDeep {k : Nat} (h : s.next? = some (t, s'))
    (hdepth : state.depth? t.token = some k) (hk : m ≤ k) :
    s.firstTooDeep m state = some ⟨t, k, s'⟩ := by
  simp [firstTooDeep, starts_of_some h, hdepth, hk]

/-- A token that fits the limit leaves the search to the tokens after it. -/
theorem firstTooDeep_of_fits (h : s.next? = some (t, s'))
    (hfits : ∀ k, state.depth? t.token = some k → k < m) :
    s.firstTooDeep m state =
      match state.feed none t.token with
      | .more state' => s'.firstTooDeep m state'
      | .done _ | .fail _ => none := by
  have hhere : ((state.depth? t.token).map fun k => (⟨t, k, s'⟩ : ExpressionStart)).toList.find?
      (fun b => decide (m ≤ b.depth)) = none := by
    cases hdepth : state.depth? t.token with
    | none => rfl
    | some k => simpa using hfits k hdepth
  rw [firstTooDeep, starts_of_some h, List.find?_append, hhere, Option.none_or]
  cases state.feed none t.token <;> rfl

/-- A limit refuses the first expression that begins too deep, and changes nothing if none does. -/
theorem readFrom_limit (m : Nat) (s : TokenStream) (state : ReaderState) :
    s.readFrom (some m) state =
      match s.firstTooDeep m state with
      | none => s.readFrom none state
      | some b => (.fault (.tooDeeplyNested m) (some b.token), b.after) := by
  cases hnext : s.next? with
  | none => rw [firstTooDeep_of_none hnext, readFrom_of_none hnext, readFrom_of_none hnext]
  | some p =>
      obtain ⟨t, s'⟩ := p
      rcases state.fits_or_tooDeep m t.token with hfits | ⟨k, hdepth, hk⟩
      · rw [firstTooDeep_of_fits hnext hfits, readFrom_of_some hnext, readFrom_of_some hnext,
          ReaderState.feed_of_fits hfits]
        cases hfeed : state.feed none t.token with
        | more state' => exact readFrom_limit m s' state'
        | done d => rfl
        | fail f => rfl
      · rw [firstTooDeep_of_tooDeep hnext hdepth hk, readFrom_of_some hnext,
          ReaderState.feed_of_tooDeep hdepth hk]
termination_by s.size
decreasing_by exact size_next?_lt ‹_›

/-- Reading goes deeper by one construct at a time, so the first expression that is too deep is so
by one. -/
theorem depth_of_firstTooDeep {s : TokenStream} {state : ReaderState} {b : ExpressionStart}
    (hheight : state.height ≤ m) (h : s.firstTooDeep m state = some b) : b.depth = m := by
  cases hnext : s.next? with
  | none =>
      rw [firstTooDeep_of_none hnext] at h
      cases h
  | some p =>
      obtain ⟨t, s'⟩ := p
      rcases state.fits_or_tooDeep m t.token with hfits | ⟨k, hdepth, hk⟩
      · rw [firstTooDeep_of_fits hnext hfits] at h
        cases hfeed : state.feed none t.token with
        | more state' =>
            rw [hfeed] at h
            exact depth_of_firstTooDeep (ReaderState.height_of_fits hheight hfits hfeed) h
        | done d =>
            rw [hfeed] at h
            cases h
        | fail f =>
            rw [hfeed] at h
            cases h
      · rw [firstTooDeep_of_tooDeep hnext hdepth hk] at h
        cases h
        obtain ⟨-, -, hk', -⟩ := ReaderState.feed_of_depth?_eq_some hdepth
        exact Nat.le_antisymm (hk' ▸ hheight) hk
termination_by s.size
decreasing_by exact size_next?_lt ‹_›

end TokenStream

/-! ## The nesting of what is read -/

/-- How deep lists stand inside each other. A list is one deeper than its deepest element; a tail
behind a dot is no element, and a list there is part of the list before the dot. -/
def Datum.nesting : Datum → Nat
  | cons first rest => max (first.nesting + 1) rest.nesting
  | number _ | symbol _ => 0

theorem Datum.nesting_ofAtom (text : String) : (ofAtom text).nesting = 0 := by
  unfold ofAtom
  split <;> rfl

theorem Datum.nesting_quote (d : Datum) : d.quote.nesting = d.nesting + 1 := by
  simp [quote, ofList, nil, nesting]

theorem Datum.nesting_ofList_lt {items : List Datum} {tail : Datum} {k m : Nat}
    (hitems : ∀ d ∈ items, d.nesting + 1 + k < m) (htail : tail.nesting + k < m) :
    (ofList items tail).nesting + k < m := by
  induction items with
  | nil => exact htail
  | cons d items ih =>
      have hd : d.nesting + 1 + k < m := hitems d (by simp)
      have hrest : (ofList items tail).nesting + k < m :=
        ih fun d' hd' => hitems d' (by simp [hd'])
      have hmax : (ofList (d :: items) tail).nesting =
          max (d.nesting + 1) (ofList items tail).nesting := rfl
      omega

def Enclosing.data : Enclosing → List Datum
  | elements rev | tail rev => rev
  | quote => []

/-- Every construct stands below the limit, and what it has gathered nests no deeper than the limit
leaves room for. -/
def Enclosing.AllFit (m : Nat) : List Enclosing → Prop
  | [] => True
  | e :: stack =>
    stack.length < m ∧ (∀ d ∈ e.data, d.nesting + 1 + stack.length < m) ∧ AllFit m stack

def ReaderState.Fits (m : Nat) : ReaderState → Prop
  | awaiting stack => Enclosing.AllFit m stack
  | closing rev tail stack =>
    Enclosing.AllFit m (.tail rev :: stack) ∧ tail.nesting + 1 + stack.length < m

def ReaderStep.Fits (m : Nat) : ReaderStep → Prop
  | more state => state.Fits m
  | done d => d.nesting < m
  | fail _ => True

namespace ReaderState

variable {m : Nat}

theorem fits_complete {stack : List Enclosing} (hstack : Enclosing.AllFit m stack) {d : Datum}
    (hd : d.nesting + stack.length < m) : (complete d stack).Fits m := by
  induction stack generalizing d with
  | nil => exact hd
  | cons e stack ih =>
      have hd' : d.nesting + 1 + stack.length < m := by
        rw [List.length_cons] at hd
        omega
      obtain ⟨hlength, hdata, hstack⟩ := hstack
      cases e with
      | quote => exact ih hstack (by rwa [Datum.nesting_quote])
      | tail rev => exact ⟨⟨hlength, hdata, hstack⟩, hd'⟩
      | elements rev =>
          refine ⟨hlength, fun d' hmem => ?_, hstack⟩
          rcases List.mem_cons.mp hmem with rfl | hmem
          · exact hd'
          · exact hdata d' hmem

theorem fits_begin {stack : List Enclosing} (hstack : Enclosing.AllFit m stack) (t : Token) :
    (begin (some m) stack t).Fits m := by
  unfold begin
  split
  · trivial
  · rename_i hdeep
    have hlength : stack.length < m := by simpa [isTooDeep] using hdeep
    cases t with
    | opening => exact ⟨hlength, nofun, hstack⟩
    | quote => exact ⟨hlength, nofun, hstack⟩
    | closing => trivial
    | dot => trivial
    | atom text => exact fits_complete hstack (by rwa [Datum.nesting_ofAtom, Nat.zero_add])

theorem fits_feed {state : ReaderState} (h : state.Fits m) (t : Token) :
    (state.feed (some m) t).Fits m := by
  unfold feed
  split
  · obtain ⟨⟨hlength, hdata, hstack⟩, htail⟩ := h
    refine fits_complete hstack (Datum.nesting_ofList_lt ?_ (by omega))
    exact fun d hd => hdata d (List.mem_reverse.mp hd)
  · trivial
  · obtain ⟨hlength, hdata, hstack⟩ := h
    refine fits_complete hstack (Datum.nesting_ofList_lt ?_ ?_)
    · exact fun d hd => hdata d (List.mem_reverse.mp hd)
    · rwa [Datum.nil, Datum.nesting, Nat.zero_add]
  · trivial
  · exact h
  · exact fits_begin h t

/-- A datum that is completed below a limit nests less than the limit says. -/
theorem nesting_lt_of_feedAll {state : ReaderState} (h : state.Fits m) {ts rest : List LocatedToken}
    {d : Datum} (hdone : state.feedAll (some m) ts = .done d rest) : d.nesting < m := by
  induction ts generalizing state with
  | nil => cases hdone
  | cons t ts ih =>
      have hstep := fits_feed h t.token
      cases hfeed : state.feed (some m) t.token with
      | more state' =>
          rw [hfeed] at hstep
          rw [feedAll_of_more hfeed] at hdone
          exact ih hstep hdone
      | done d' =>
          rw [hfeed] at hstep
          rw [feedAll_of_done hfeed] at hdone
          cases hdone
          exact hstep
      | fail f =>
          rw [feedAll_of_fail hfeed] at hdone
          cases hdone

end ReaderState

/-! ## Reading below a limit -/

namespace Reader

def withLimit (r : Reader) (limit : Option Nat) : Reader :=
  { r with limit }

def starts (r : Reader) : List ExpressionStart :=
  r.stream.starts .start

/-- The greatest depth at which an expression begins while the next one is read without a limit. -/
def deepest? (r : Reader) : Option Nat :=
  (r.starts.map ExpressionStart.depth).max?

theorem read?_withLimit_of_none {r : Reader} (h : r.stream.next? = none) (limit : Option Nat) :
    (r.withLimit limit).read? = none := by
  rw [read?, withLimit, h]

theorem read?_withLimit_of_some {r : Reader} {t : LocatedToken} {s : TokenStream}
    (h : r.stream.next? = some (t, s)) (limit : Option Nat) :
    (r.withLimit limit).read? = some (r.report (r.stream.readFrom limit .start).1,
      ⟨r.source, (r.stream.readFrom limit .start).2, limit⟩) := by
  rw [read?, withLimit, h, ← TokenStream.readFrom_pushBack h]
  rfl

/-- The first token of a read begins an expression inside nothing. -/
theorem starts_ne_nil {r : Reader} {t : LocatedToken} {s : TokenStream}
    (h : r.stream.next? = some (t, s)) : r.starts ≠ [] := by
  have hdepth : ReaderState.start.depth? t.token = some 0 := rfl
  rw [starts, TokenStream.starts_of_some h, hdepth]
  simp

theorem deepest?_eq_none_iff (r : Reader) : r.deepest? = none ↔ r.stream.next? = none := by
  rw [deepest?, List.max?_eq_none_iff, List.map_eq_nil_iff]
  constructor
  · intro hstarts
    cases hnext : r.stream.next? with
    | none => rfl
    | some p => exact absurd hstarts (starts_ne_nil hnext)
  · exact fun hnext => TokenStream.starts_of_none hnext _

theorem firstTooDeep_eq_none_iff (r : Reader) (m : Nat) :
    r.stream.firstTooDeep m .start = none ↔ ∀ k, r.deepest? = some k → k < m := by
  rw [TokenStream.firstTooDeep, List.find?_eq_none]
  constructor
  · intro h k hk
    obtain ⟨b, hb, rfl⟩ := List.mem_map.mp (List.max?_mem hk)
    simpa using h b hb
  · intro h b hb
    have hmem : b.depth ∈ r.starts.map ExpressionStart.depth := List.mem_map_of_mem hb
    cases hk : r.deepest? with
    | none =>
        rw [deepest?, List.max?_eq_none_iff] at hk
        rw [hk] at hmem
        cases hmem
    | some k =>
        have hle : b.depth ≤ k := (List.max?_eq_some_iff.mp hk).2 b.depth hmem
        have hlt : k < m := h k hk
        simpa using Nat.lt_of_le_of_lt hle hlt

/-- The first expression that is too deep is the first that begins inside `m` constructs. -/
theorem find?_depth_of_firstTooDeep {r : Reader} {m : Nat} {b : ExpressionStart}
    (h : r.stream.firstTooDeep m .start = some b) :
    (r.starts.find? fun b => b.depth == m) = some b := by
  have hdepth := TokenStream.depth_of_firstTooDeep (Nat.zero_le m) h
  obtain ⟨-, before, after, hstarts, hbefore⟩ := List.find?_eq_some_iff_append.mp h
  refine List.find?_eq_some_iff_append.mpr ⟨by simpa using hdepth, before, after, hstarts, ?_⟩
  intro b' hb'
  have hlt : b'.depth < m := by simpa using hbefore b' hb'
  simpa using Nat.ne_of_lt hlt

/-- The limit of nesting is a pure cut-off. Below it the next expression is read as without a limit,
with the same outcome and the same rest of the text. Otherwise reading is refused at the first token
that begins an expression inside `m` constructs, and goes on behind that token. What is read below
a limit of `m` nests less than `m` deep. -/
theorem read?_limit_cuts_off (r : Reader) (m : Nat) :
    (r.deepest? = none ↔ r.stream.next? = none) ∧
    ((∀ k, r.deepest? = some k → k < m) →
      (r.withLimit (some m)).read? =
        (r.withLimit none).read?.map fun (result, r') => (result, r'.withLimit (some m))) ∧
    (∀ k, r.deepest? = some k → m ≤ k →
      ∃ b, (r.starts.find? fun b => b.depth == m) = some b ∧
        (r.withLimit (some m)).read? =
          some (.error (.located .tooDeep (ReadFault.tooDeeplyNested m).message r.source
              b.token.offset (some b.token.token.text)),
            ⟨r.source, b.after, some m⟩)) ∧
    ∀ d r', (r.withLimit (some m)).read? = some (.ok d, r') → d.nesting < m := by
  refine ⟨r.deepest?_eq_none_iff, ?_, ?_, ?_⟩
  · intro hfits
    have hread := TokenStream.readFrom_limit m r.stream .start
    rw [(r.firstTooDeep_eq_none_iff m).mpr hfits] at hread
    cases hnext : r.stream.next? with
    | none => rw [read?_withLimit_of_none hnext, read?_withLimit_of_none hnext, Option.map_none]
    | some p =>
        rw [read?_withLimit_of_some hnext, read?_withLimit_of_some hnext, Option.map_some, hread]
        rfl
  · intro k hk hle
    cases hfirst : r.stream.firstTooDeep m .start with
    | none => exact absurd ((r.firstTooDeep_eq_none_iff m).mp hfirst k hk) (Nat.not_lt_of_le hle)
    | some b =>
        refine ⟨b, find?_depth_of_firstTooDeep hfirst, ?_⟩
        have hread := TokenStream.readFrom_limit m r.stream .start
        rw [hfirst] at hread
        cases hnext : r.stream.next? with
        | none =>
            rw [(r.deepest?_eq_none_iff).mpr hnext] at hk
            cases hk
        | some p =>
            rw [read?_withLimit_of_some hnext, hread]
            rfl
  · intro d r' hread
    have hstart : ReaderState.start.Fits m := trivial
    exact ReaderState.nesting_lt_of_feedAll hstart (feedAll_of_read?_ok hread)

/-- A quoted list behind a dot: the list after the quote begins inside two constructs, and its
element inside three. -/
theorem read?_limit_cuts_off_dotted_quote :
    let r := ofSource "(a . '(b)) z" none
    r.deepest? = some 3 ∧
    (r.withLimit (some 4)).read? =
      (r.withLimit none).read?.map (fun (result, r') => (result, r'.withLimit (some 4))) ∧
    ∃ b : ExpressionStart, b.token = ⟨.opening, 6⟩ ∧
      (r.withLimit (some 2)).read? =
        some (.error (.located .tooDeep (ReadFault.tooDeeplyNested 2).message r.source 6 (some "(")),
          ⟨r.source, b.after, some 2⟩) := by
  intro r
  have hdeepest : r.deepest? = some 3 := by decide +kernel
  obtain ⟨-, hbelow, -, -⟩ := read?_limit_cuts_off r 4
  obtain ⟨-, -, habove, -⟩ := read?_limit_cuts_off r 2
  refine ⟨hdeepest, hbelow ?_, ?_⟩
  · rw [hdeepest]
    rintro _ ⟨⟩
    decide
  · obtain ⟨b, hfirst, hread⟩ := habove 3 hdeepest (by decide)
    have htoken : (r.starts.find? fun b => b.depth == 2).map ExpressionStart.token =
        some ⟨.opening, 6⟩ := by decide +kernel
    rw [hfirst, Option.map_some] at htoken
    have hb := Option.some.inj htoken
    rw [hb] at hread
    exact ⟨b, hb, hread⟩

end Reader

end Lisp
