import Lisp.Token

/-!
# Token streams

The tokens of a source text one after the other. Blanks and comments stand between tokens; a
comment runs from a semicolon to the end of its line. A stream can take back the token it gave
last. Main statement: `TokenStream.size_next?_lt`, each token given uses the stream up a little,
so reading always ends.
-/

namespace Lisp

/-- A token and the byte offset in the source at which it starts. -/
structure LocatedToken where
  token : Token
  offset : Nat
  deriving DecidableEq

structure TokenStream where
  /-- The characters not yet looked at. -/
  rest : List Char
  /-- The bytes of the source that stand before `rest`. -/
  offset : Nat
  /-- A token that was given back and comes next. -/
  pushed : Option LocatedToken

namespace TokenStream

def ofSource (source : String) : TokenStream :=
  ⟨source.toList, 0, none⟩

/-- What follows the blanks and comments at the front, and the bytes before it; `inComment` says
whether the text starts inside a comment. -/
def skipBlanks (inComment : Bool) (offset : Nat) : List Char → Nat × List Char
  | [] => (offset, [])
  | c :: cs =>
    if inComment then
      skipBlanks (c != '\n') (offset + c.utf8Size) cs
    else if Text.isBlank c then
      skipBlanks false (offset + c.utf8Size) cs
    else if c == ';' then
      skipBlanks true (offset + c.utf8Size) cs
    else
      (offset, c :: cs)

/-- The token at the front of a text that begins with `c`, and the text after it. A dot is a token
of its own wherever a token starts. -/
def scan (c : Char) (cs : List Char) : Token × List Char :=
  match c with
  | '(' => (.opening, cs)
  | ')' => (.closing, cs)
  | '\'' => (.quote, cs)
  | '.' => (.dot, cs)
  | c =>
    (.atom (String.ofList (c :: cs.takeWhile fun d => !Token.isDelimiter d)),
      cs.dropWhile fun d => !Token.isDelimiter d)

def next? (s : TokenStream) : Option (LocatedToken × TokenStream) :=
  match s.pushed with
  | some t => some (t, { s with pushed := none })
  | none =>
    match skipBlanks false s.offset s.rest with
    | (_, []) => none
    | (offset, c :: cs) =>
      let (token, rest) := scan c cs
      some (⟨token, offset⟩, ⟨rest, offset + token.text.utf8ByteSize, none⟩)

def pushBack (s : TokenStream) (t : LocatedToken) : TokenStream :=
  { s with pushed := some t }

/-! ### Every token uses the stream up -/

/-- A bound on the number of tokens still to come. -/
def size (s : TokenStream) : Nat :=
  s.rest.length + s.pushed.toList.length

theorem length_skipBlanks_le (inComment : Bool) (offset : Nat) (cs : List Char) :
    (skipBlanks inComment offset cs).2.length ≤ cs.length := by
  induction cs generalizing inComment offset with
  | nil => simp [skipBlanks]
  | cons c cs ih =>
    simp only [skipBlanks]
    split
    · exact Nat.le_succ_of_le (ih _ _)
    · split
      · exact Nat.le_succ_of_le (ih _ _)
      · split
        · exact Nat.le_succ_of_le (ih _ _)
        · simp

theorem length_scan_le (c : Char) (cs : List Char) : (scan c cs).2.length ≤ cs.length := by
  have := (List.dropWhile_suffix (l := cs) fun d => !Token.isDelimiter d).length_le
  unfold scan
  split <;> simp [this]

theorem size_next?_lt {s s' : TokenStream} {t : LocatedToken} (h : s.next? = some (t, s')) :
    s'.size < s.size := by
  unfold next? at h
  split at h
  · next t' ht =>
    simp only [Option.some.injEq, Prod.mk.injEq] at h
    simp [← h.2, size, ht]
  · next hs =>
    have hle := length_skipBlanks_le false s.offset s.rest
    split at h
    · simp at h
    · next offset c cs hskip =>
      have := length_scan_le c cs
      simp only [Option.some.injEq, Prod.mk.injEq] at h
      simp only [hskip, List.length_cons] at hle
      simp only [← h.2, size, hs, Option.toList_none, List.length_nil]
      omega

/-- No token is held back once the next one was given. -/
theorem pushed_of_next? {s s' : TokenStream} {t : LocatedToken} (h : s.next? = some (t, s')) :
    s'.pushed = none := by
  unfold next? at h
  split at h
  · simp only [Option.some.injEq, Prod.mk.injEq] at h
    simp [← h.2]
  · split at h
    · simp at h
    · simp only [Option.some.injEq, Prod.mk.injEq] at h
      simp [← h.2]

/-- Giving a token back restores at most what it used up. -/
theorem size_pushBack_le {s s' : TokenStream} {t : LocatedToken} (h : s.next? = some (t, s')) :
    (s'.pushBack t).size ≤ s.size := by
  have hlt := size_next?_lt h
  simp only [size, pushBack, pushed_of_next? h, Option.toList_none, Option.toList_some,
    List.length_nil, List.length_singleton] at hlt ⊢
  omega

end TokenStream

end Lisp
