import Lisp.Token.Stream
import Lisp.Reader.State

/-!
# Readers

A reader gives the expressions of a source text one after the other. After an error it goes on
with the token behind the one that was refused, so every text has a finite list of outcomes.
-/

namespace Lisp

structure Reader where
  source : String
  stream : TokenStream
  limit : Option Nat

/-- What reading one expression gave: a datum, or a fault and the token it was found at. -/
inductive ReadOutcome
  | datum (d : Datum)
  | fault (f : ReadFault) (found : Option LocatedToken)

namespace TokenStream

/-- Feeds tokens to a reader's state until the expression is complete or refused. -/
def readFrom (limit : Option Nat) (s : TokenStream) (state : ReaderState) :
    ReadOutcome × TokenStream :=
  match _ : s.next? with
  | none => (.fault state.endFault none, s)
  | some (t, s') =>
    match state.feed limit t.token with
    | .more state' => readFrom limit s' state'
    | .done d => (.datum d, s')
    | .fail f => (.fault f (some t), s')
termination_by s.size
decreasing_by exact size_next?_lt ‹_›

theorem size_readFrom_le (limit : Option Nat) (s : TokenStream) (state : ReaderState) :
    (s.readFrom limit state).2.size ≤ s.size := by
  fun_induction readFrom limit s state with
  | case1 => exact Nat.le_refl _
  | case2 s state t s' h state' _ ih => exact Nat.le_trans ih (Nat.le_of_lt (size_next?_lt h))
  | case3 s state t s' h d _ => exact Nat.le_of_lt (size_next?_lt h)
  | case4 s state t s' h f _ => exact Nat.le_of_lt (size_next?_lt h)

theorem size_readFrom_lt {limit : Option Nat} {s s' : TokenStream} {state : ReaderState}
    {t : LocatedToken} (h : s.next? = some (t, s')) :
    (s.readFrom limit state).2.size < s.size := by
  have hlt := size_next?_lt h
  unfold readFrom
  split
  · next h' => simp [h] at h'
  · next t' s'' h' =>
    rw [h] at h'
    cases h'
    split
    · exact Nat.lt_of_le_of_lt (size_readFrom_le _ _ _) hlt
    · exact hlt
    · exact hlt

end TokenStream

namespace Reader

def ofSource (source : String) (limit : Option Nat) : Reader :=
  ⟨source, .ofSource source, limit⟩

/-- The report of an outcome. A fault without a token is one at the end of the text. -/
def report (r : Reader) : ReadOutcome → Except ReadError Datum
  | .datum d => .ok d
  | .fault f (some t) => .error (.located f.kind f.message r.source t.offset (some t.token.text))
  | .fault f none => .error (.located f.kind f.message r.source r.source.utf8ByteSize none)

/-- Reads the next expression; `none` once only blanks and comments are left. -/
def read? (r : Reader) : Option (Except ReadError Datum × Reader) :=
  match r.stream.next? with
  | none => none
  | some (t, s) =>
    let (outcome, s') := (s.pushBack t).readFrom r.limit .start
    some (r.report outcome, { r with stream := s' })

/-- The next expression; a text without one is an error. -/
def readRequired (r : Reader) : Except ReadError Datum :=
  match r.read? with
  | none => .error .noExpression
  | some (result, _) => result

theorem size_read?_lt {r r' : Reader} {result : Except ReadError Datum}
    (h : r.read? = some (result, r')) : r'.stream.size < r.stream.size := by
  unfold read? at h
  split at h
  · simp at h
  · next t s hnext =>
    simp only [Option.some.injEq, Prod.mk.injEq] at h
    rw [← h.2]
    exact Nat.lt_of_lt_of_le (TokenStream.size_readFrom_lt rfl)
      (TokenStream.size_pushBack_le hnext)

/-- The outcome of every read, going on after errors. -/
def outcomes (r : Reader) : List (Except ReadError Datum) :=
  match _ : r.read? with
  | none => []
  | some (result, r') => result :: r'.outcomes
termination_by r.stream.size
decreasing_by exact size_read?_lt ‹_›

/-- Every expression of the text, or the first error. -/
def readAll (r : Reader) : Except ReadError (List Datum) :=
  r.outcomes.mapM id

end Reader

def parse (source : String) : Except ReadError Datum :=
  (Reader.ofSource source none).readRequired

def parseAll (source : String) : Except ReadError (List Datum) :=
  (Reader.ofSource source none).readAll

end Lisp
