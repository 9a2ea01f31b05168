import PocketLisp.Input.LineSource
import PocketLisp.Token.Scan

/-!
# Streams of tokens

Tokens are handed out one at a time. A line is read only when the one before it is used up, so
nothing after the current line is taken from the source.

## Main definitions

- `TokenStream` — a source of lines and the line in hand
- `TokenStream.next` — the next token
- `TokenStream.collect`, `tokenize` — all tokens up to the end or a failure

## Main statements

- `TokenStream.remaining_lt_of_next` — a token handed out leaves less to read

## Design notes

A failing read leaves the stream as it was, so the call can be repeated; it does not count as a
line. The read that finds the end does, and no read follows it.
-/

namespace PocketLisp

/-- A source of lines and the line in hand. -/
structure TokenStream where
  source : LineSource
  /-- The line in hand, ended by a newline; empty at the start and at the end. -/
  line : List Char
  /-- How many characters of the line are used up. -/
  offset : Nat
  /-- The rest of the line, kept so that a long line is walked only once. -/
  rest : List Char
  /-- How many lines were read. -/
  lineNumber : Nat
  /-- Whether the next read is for a form that has begun. -/
  continuation : Bool
  /-- Whether the end of the input was found. -/
  exhausted : Bool
  deriving Inhabited

namespace TokenStream

/-- A stream over a source from which nothing was read yet. -/
def ofSource (source : LineSource) : TokenStream :=
  ⟨source, [], 0, [], 0, false, false⟩

/-- Chooses the prompt of the next read. -/
def setContinuation (s : TokenStream) (continuation : Bool) : TokenStream :=
  { s with continuation }

/-- The prompt of the next read. -/
def prompt (s : TokenStream) : String :=
  if s.continuation then "  > " else "--> "

/-- A line with its line end, which the last line of a text may lack. -/
def completeLine (line : List Char) : List Char :=
  match line.getLast? with
  | none => []
  | some c => if c == '\n' then line else line ++ ['\n']

/-- Reads the next line. The answer is whether there was one. -/
def refill (s : TokenStream) (c : Console) :
    Except Failure Bool × TokenStream × Console :=
  if s.exhausted then (.ok false, s, c)
  else
    match s.source.read s.prompt c with
    | (.error f, source, c) => (.error f, { s with source }, c)
    | (.ok text, source, c) =>
      let line := completeLine text.toList
      (.ok (!line.isEmpty),
        { s with
          source, line, offset := 0, rest := line,
          lineNumber := s.lineNumber + 1, exhausted := line.isEmpty }, c)

/-- Cuts the next token from the line in hand. -/
def cut (s : TokenStream) : Except Failure Token × TokenStream :=
  let (gap, start) := splitGap s.rest
  let before := s.offset + gap.length
  match Lexeme.scan? start with
  | some (lexeme, rest) =>
    (.ok ⟨lexeme, s.lineNumber, before + 1⟩,
      { s with offset := before + lexeme.text.length, rest })
  | none => (.error (.unreadable s.lineNumber (before + 1)), s)

/-- The next token, or nothing at the end of the input. -/
def next (s : TokenStream) (c : Console) :
    Except Failure (Option Token) × TokenStream × Console :=
  if s.rest.isEmpty then
    match s.refill c with
    | (.error f, s, c) => (.error f, s, c)
    | (.ok false, s, c) => (.ok none, s, c)
    | (.ok true, s, c) => ((s.cut).1.map some, (s.cut).2, c)
  else ((s.cut).1.map some, (s.cut).2, c)

/-! ### What is left to read -/

/-- A bound on the characters that the stream can still hand out. -/
def remaining (s : TokenStream) : Nat := s.source.size + s.rest.length

@[simp]
theorem remaining_setContinuation (s : TokenStream) (b : Bool) :
    (s.setContinuation b).remaining = s.remaining := rfl

theorem completeLine_nil : completeLine [] = [] := rfl

theorem length_completeLine_le (line : List Char) :
    (completeLine line).length ≤ line.length + 1 := by
  unfold completeLine
  split
  · simp
  · split <;> simp

theorem remaining_le_of_refill {s s' : TokenStream} {c c' : Console} {b : Except Failure Bool}
    (h : s.refill c = (b, s', c')) : s'.remaining ≤ s.remaining := by
  unfold refill at h
  split at h
  · cases h; exact Nat.le_refl _
  · split at h
    · next hread =>
      cases h
      exact Nat.add_le_add_right (LineSource.size_le_of_read hread) _
    · next text source _ hread =>
      cases h
      simp only [remaining]
      by_cases htext : text = ""
      · have := LineSource.size_le_of_read hread
        subst htext
        simp only [String.toList_empty, completeLine_nil, List.length_nil]
        omega
      · have := LineSource.size_lt_of_read hread htext
        have := length_completeLine_le text.toList
        rw [String.length_toList] at this
        omega

theorem remaining_lt_of_cut {s s' : TokenStream} {t : Token} (h : s.cut = (.ok t, s')) :
    s'.remaining < s.remaining := by
  unfold cut at h
  simp only at h
  split at h
  · next l rest hscan =>
    cases h
    have h₁ := Lexeme.length_lt_of_scan? hscan
    have h₂ := length_splitGap_le s.rest
    simp only [remaining]
    omega
  · cases h

/-- A token handed out leaves less to read. -/
theorem remaining_lt_of_next {s s' : TokenStream} {c c' : Console} {t : Token}
    (h : s.next c = (.ok (some t), s', c')) : s'.remaining < s.remaining := by
  have cut_lt : ∀ {s₁ s₂ : TokenStream} {c₁ c₂ : Console},
      ((s₁.cut).1.map some, (s₁.cut).2, c₁) = (Except.ok (some t), s₂, c₂) →
      s₂.remaining < s₁.remaining := by
    intro s₁ s₂ c₁ c₂ h
    match hcut : s₁.cut with
    | (.ok u, s₃) =>
      rw [hcut] at h
      cases h
      exact remaining_lt_of_cut hcut
    | (.error f, s₃) =>
      rw [hcut] at h
      cases h
  unfold next at h
  split at h
  · split at h
    · cases h
    · cases h
    · next hrefill => exact Nat.lt_of_lt_of_le (cut_lt h) (remaining_le_of_refill hrefill)
  · exact cut_lt h

/-! ### All tokens -/

/-- The tokens up to the end of the input, after those already `seen`, latest first. The first
failure takes the place of all. -/
def collectAfter (seen : List Token) (s : TokenStream) (c : Console) :
    Except Failure (List Token) :=
  match _h : s.next c with
  | (.error f, _, _) => .error f
  | (.ok none, _, _) => .ok seen.reverse
  | (.ok (some t), s', c') => collectAfter (t :: seen) s' c'
termination_by s.remaining
decreasing_by exact remaining_lt_of_next _h

/-- The tokens of a source up to its end, or its first failure. -/
def collect (source : LineSource) : Except Failure (List Token) :=
  collectAfter [] (ofSource source) .unlimited

end TokenStream

/-- The tokens of a text, newlines included. -/
def tokenize (text : String) : Except Failure (List Token) :=
  TokenStream.collect (.ofString text .silent)

end PocketLisp
