import PocketLisp.Proofs.Input.Lines
import PocketLisp.Proofs.Token.Lexemes

/-!
# The tokens of a text

The tokens of a text are those of its lines, one after another.

## Main definitions

- `tokensOfLine` — the tokens of a line, with their places
- `tokensOfLines`, `tokensOf` — the tokens of several lines, and of a text

## Main statements

- `lexemes_tokensOfLine` — the places do not matter for what the tokens are
- `TokenStream.HasLines.next_cases` — what is handed out next is read off the lines to come
- `TokenStream.collectAfter_eq` — and so is what is left to collect
- `tokenize_eq` — the tokens of a text are those of its lines
-/

namespace PocketLisp

/-! ### The lines of a text -/

section

variable {c : Char} {cs line : List Char} {lines : List (List Char)}

theorem splitAfter_newline : splitAfter '\n' ('\n' :: cs) = ['\n'] :: splitAfter '\n' cs := rfl

theorem splitAfter_eq_nil (h : splitAfter '\n' cs = []) : cs = [] :=
  (flatten_splitAfter cs).symm.trans (congrArg List.flatten h)

/-- A character that ends no line belongs to the same line as the next one. -/
theorem splitAfter_cons (hc : c ≠ '\n') (h : splitAfter '\n' cs = line :: lines) :
    splitAfter '\n' (c :: cs) = (c :: line) :: lines := by
  have hstop : (c == '\n') = false := beq_eq_false_iff_ne.2 hc
  rw [splitAfter] at h ⊢
  rw [List.foldr_cons, h, hstop]
  rfl

theorem splitAfter_of_notMem (h : '\n' ∉ cs) (hne : cs ≠ []) : splitAfter '\n' cs = [cs] := by
  induction cs with
  | nil => exact absurd rfl hne
  | cons c cs ih =>
    obtain ⟨hc, hcs⟩ : '\n' ≠ c ∧ '\n' ∉ cs := by simpa using h
    by_cases hnil : cs = []
    · subst hnil
      simp [splitAfter, hc.symm]
    · exact splitAfter_cons hc.symm (ih hcs hnil)

theorem TokenStream.completeLine_cons (hcs : cs ≠ []) :
    completeLine (c :: cs) = c :: completeLine cs := by
  obtain ⟨ds, d, rfl⟩ := (List.eq_nil_or_concat cs).resolve_left hcs
  simp only [completeLine, List.concat_eq_append, ← List.cons_append, List.getLast?_concat]
  split <;> rfl

theorem TokenStream.completeLine_of_notMem (h : '\n' ∉ cs) (hne : cs ≠ []) :
    completeLine cs = cs ++ ['\n'] := by
  obtain ⟨ds, d, rfl⟩ := (List.eq_nil_or_concat cs).resolve_left hne
  have hd : d ≠ '\n' := by
    rintro rfl
    exact h (by simp)
  simp [completeLine, hd]

end

/-! ### The tokens of lines -/

/-- The tokens of the rest of a line, of which `offset` characters are used up. -/
def tokensOfLine (number offset : Nat) (cs : List Char) : List Token :=
  match _h : Lexeme.scan? (splitGap cs).2 with
  | none => []
  | some (l, rest) =>
    let before := offset + (splitGap cs).1.length
    ⟨l, number, before + 1⟩ :: tokensOfLine number (before + l.text.length) rest
termination_by cs.length
decreasing_by
  have hlt := Lexeme.length_lt_of_scan? _h
  have hle := length_splitGap_le cs
  omega

/-- The tokens of lines, of which the first has this number. -/
def tokensOfLines (number : Nat) : List (List Char) → List Token
  | [] => []
  | line :: lines => tokensOfLine number 0 line ++ tokensOfLines (number + 1) lines

section

variable {number offset : Nat} {cs rest : List Char} {l : Lexeme}

theorem tokensOfLine_eq_nil (h : Lexeme.scan? (splitGap cs).2 = none) :
    tokensOfLine number offset cs = [] := by
  rw [tokensOfLine]
  split
  · rfl
  · next h' => rw [h] at h'; cases h'

theorem tokensOfLine_eq_cons (h : Lexeme.scan? (splitGap cs).2 = some (l, rest)) :
    tokensOfLine number offset cs =
      ⟨l, number, offset + (splitGap cs).1.length + 1⟩ ::
        tokensOfLine number (offset + (splitGap cs).1.length + l.text.length) rest := by
  rw [tokensOfLine]
  split
  · next h' => rw [h] at h'; cases h'
  · next h' =>
    rw [h] at h'
    cases h'
    rfl

theorem tokensOfLine_nil : tokensOfLine number offset [] = [] := tokensOfLine_eq_nil rfl

/-- The places do not matter for what the tokens are. -/
theorem lexemes_tokensOfLine (number offset : Nat) (cs : List Char) :
    (tokensOfLine number offset cs).map Token.lexeme = Lexeme.scanAll cs := by
  fun_induction Lexeme.scanAll cs generalizing offset with
  | case1 cs h => rw [tokensOfLine_eq_nil h]; rfl
  | case2 cs l rest h ih => rw [tokensOfLine_eq_cons h, List.map_cons, ih]

end

namespace TokenStream

variable {s s' : TokenStream} {c : Console}

/-- The next token of a line that is not used up is the first of its tokens. -/
theorem next_of_rest (h : LineEnded s.rest) (hne : s.rest ≠ []) :
    ∃ t offset rest, (∀ c, s.next c = (.ok (some t), { s with offset, rest }, c)) ∧
      LineEnded rest ∧ Lexeme.scan? (splitGap s.rest).2 = some (t.lexeme, rest) ∧
      tokensOfLine s.lineNumber s.offset s.rest = t :: tokensOfLine s.lineNumber offset rest := by
  obtain ⟨l, rest, hscan, hended, -⟩ := h.exists_scan? hne
  refine ⟨_, _, rest, fun c => ?_, hended, hscan, tokensOfLine_eq_cons hscan⟩
  unfold next cut
  rw [if_neg (by simpa using hne)]
  simp only [hscan]
  rfl

theorem completeLine_ne_nil {line : List Char} (h : line ≠ []) : completeLine line ≠ [] := by
  unfold completeLine
  split
  · next hlast => exact absurd (List.getLast?_eq_none_iff.1 hlast) h
  · split
    · exact h
    · simp

/-- A stream with the next line of a silent source in hand. -/
def withLine (s : TokenStream) (line : List Char) (reads : List Read) : TokenStream :=
  { s with
    source := ⟨reads, .silent⟩, line := completeLine line, offset := 0,
    rest := completeLine line, lineNumber := s.lineNumber + 1, exhausted := false }

/-- When the line is used up, the next one is taken. -/
theorem next_of_line {line : List Char} {reads : List Read} (c : Console)
    (hsilent : s.source.prompting = .silent)
    (hreads : s.source.reads = .line (String.ofList line) :: reads) (hline : line ≠ [])
    (hrest : s.rest = []) (hexhausted : s.exhausted = false) :
    s.next c = (s.withLine line reads).next c := by
  have hread : s.source.read s.prompt c = (.ok (String.ofList line), ⟨reads, .silent⟩, c) := by
    simp [LineSource.read, Prompting.ask, hsilent, hreads]
  have hempty : (completeLine line).isEmpty = false := by
    simpa using completeLine_ne_nil hline
  have hrefill : s.refill c = (.ok true, s.withLine line reads, c) := by
    rw [refill, if_neg (by simp [hexhausted]), hread]
    simp [hempty, withLine]
  have hfull : ¬ (s.withLine line reads).rest.isEmpty = true := by
    simp [withLine, hempty]
  rw [next, if_pos (by simp [hrest]), hrefill, next, if_neg hfull]

/-- At the end of a silent source there is nothing. -/
theorem next_of_end (hsilent : s.source.prompting = .silent) (hreads : s.source.reads = [])
    (hrest : s.rest = []) : ∃ s', ∀ c, s.next c = (.ok none, s', c) := by
  have hread (c : Console) : s.source.read s.prompt c = (.ok "", s.source, c) := by
    simp [LineSource.read, Prompting.ask, hsilent, hreads]
  have hrefill : ∃ s', ∀ c, s.refill c = (.ok false, s', c) := by
    unfold refill
    split
    · exact ⟨s, fun _ => rfl⟩
    · simp only [hread]
      exact ⟨_, fun _ => rfl⟩
  obtain ⟨s', hs'⟩ := hrefill
  exact ⟨s', fun c => by rw [next, if_pos (by simp [hrest]), hs']⟩

theorem collectAfter_of_none {seen : List Token} {c' : Console}
    (h : s.next c = (.ok none, s', c')) : collectAfter seen s c = .ok seen.reverse := by
  rw [collectAfter]
  split
  · next h' => rw [h] at h'; cases h'
  · rfl
  · next h' => rw [h] at h'; cases h'

theorem collectAfter_of_token {seen : List Token} {t : Token} {c' : Console}
    (h : s.next c = (.ok (some t), s', c')) :
    collectAfter seen s c = collectAfter (t :: seen) s' c' := by
  rw [collectAfter]
  split
  · next h' => rw [h] at h'; cases h'
  · next h' => rw [h] at h'; cases h'
  · next h' =>
    rw [h] at h'
    cases h'
    rfl

/-- A silent source that has these lines left, and a line in hand that ends with a newline. -/
structure HasLines (s : TokenStream) (lines : List (List Char)) : Prop where
  silent : s.source.prompting = .silent
  reads : s.source.reads = lines.map fun line => .line (String.ofList line)
  nonempty : ∀ line ∈ lines, line ≠ []
  ended : LineEnded s.rest
  exhausted : s.exhausted = true → lines = []

theorem HasLines.withLine {line : List Char} {lines : List (List Char)}
    (h : s.HasLines (line :: lines)) :
    (s.withLine line (lines.map fun line => .line (String.ofList line))).HasLines lines where
  silent := rfl
  reads := rfl
  nonempty := (List.forall_mem_cons.1 h.nonempty).2
  ended := lineEnded_completeLine line
  exhausted := nofun

/-- The tokens of the rest of the line in hand and of the lines to come. -/
def tokensLeft (s : TokenStream) (lines : List (List Char)) : List Token :=
  tokensOfLine s.lineNumber s.offset s.rest ++
    tokensOfLines (s.lineNumber + 1) (lines.map completeLine)

theorem tokensLeft_withLine {line : List Char} {lines : List (List Char)} {reads : List Read}
    (hrest : s.rest = []) :
    (s.withLine line reads).tokensLeft lines = s.tokensLeft (line :: lines) := by
  rw [tokensLeft, tokensLeft, hrest, tokensOfLine_nil]
  rfl

/-- What a silent source hands out next is the first of the tokens that are left. -/
theorem HasLines.next_cases {lines : List (List Char)} (h : s.HasLines lines) :
    (s.tokensLeft lines = [] ∧ ∃ s', ∀ c, s.next c = (.ok none, s', c)) ∨
      ∃ t s' lines', (∀ c, s.next c = (.ok (some t), s', c)) ∧ s'.HasLines lines' ∧
        s.tokensLeft lines = t :: s'.tokensLeft lines' := by
  -- The stream `s₀` is `s`, with the next line in hand if its own is used up.
  have hstep : ∀ {s₀ : TokenStream} {lines₀ : List (List Char)}, (∀ c, s.next c = s₀.next c) →
      s₀.HasLines lines₀ → s₀.rest ≠ [] → s₀.tokensLeft lines₀ = s.tokensLeft lines →
      ∃ t s' lines', (∀ c, s.next c = (.ok (some t), s', c)) ∧ s'.HasLines lines' ∧
        s.tokensLeft lines = t :: s'.tokensLeft lines' := by
    intro s₀ lines₀ heq h₀ hne hleft
    obtain ⟨t, offset, rest, hnext, hended, -, htokens⟩ := next_of_rest h₀.ended hne
    refine ⟨t, { s₀ with offset, rest }, lines₀, fun c => ?_, { h₀ with ended := hended }, ?_⟩
    · rw [heq, hnext]
    · rw [← hleft, tokensLeft, tokensLeft, htokens]
      rfl
  by_cases hrest : s.rest = []
  · cases lines with
    | nil =>
      left
      refine ⟨?_, next_of_end h.silent h.reads hrest⟩
      rw [tokensLeft, hrest, tokensOfLine_nil]
      rfl
    | cons line lines =>
      right
      have hline : line ≠ [] := h.nonempty line List.mem_cons_self
      have hexhausted : s.exhausted = false := by
        by_contra hex
        have := h.exhausted (by simpa using hex)
        cases this
      exact hstep (fun c => next_of_line c h.silent h.reads hline hrest hexhausted) h.withLine
        (completeLine_ne_nil hline) (tokensLeft_withLine hrest)
  · exact .inr (hstep (fun _ => rfl) h hrest rfl)

/-- What is left to collect from a silent source are the tokens of the rest of the line in hand and
those of the lines to come. -/
theorem collectAfter_eq {seen : List Token} {lines : List (List Char)} (h : s.HasLines lines) :
    collectAfter seen s c = .ok (seen.reverse ++ s.tokensLeft lines) := by
  -- Each token handed out leaves less to read.
  induction hn : s.remaining using Nat.strongRecOn generalizing s seen lines with
  | ind n ih =>
    subst hn
    rcases h.next_cases with ⟨hleft, s', hnext⟩ | ⟨t, s', lines', hnext, h', hleft⟩
    · rw [collectAfter_of_none (hnext c), hleft, List.append_nil]
    · rw [collectAfter_of_token (hnext c), ih _ (remaining_lt_of_next (hnext c)) h' rfl, hleft]
      simp

/-- The lines of a text are left when nothing was read yet. -/
theorem hasLines_ofString (text : String) :
    (ofSource (.ofString text .silent)).HasLines (splitAfter '\n' text.toList) :=
  ⟨rfl, rfl, fun _ => ne_nil_of_mem_splitAfter, lineEnded_nil, nofun⟩

end TokenStream

/-- The tokens of the lines of a text, each with a line end. -/
def tokensOf (text : String) : List Token :=
  tokensOfLines 1 ((splitAfter '\n' text.toList).map TokenStream.completeLine)

theorem TokenStream.tokensLeft_ofString (text : String) :
    (ofSource (.ofString text .silent)).tokensLeft (splitAfter '\n' text.toList) =
      tokensOf text := by
  simp [tokensLeft, ofSource, tokensOfLine_nil, tokensOf]

/-- The tokens of a text are those of its lines, each with a line end. -/
theorem tokenize_eq (text : String) :
    tokenize text =
      .ok (tokensOfLines 1 ((splitAfter '\n' text.toList).map TokenStream.completeLine)) := by
  have h := TokenStream.hasLines_ofString text
  rw [tokenize, TokenStream.collect, TokenStream.collectAfter_eq h, TokenStream.tokensLeft_ofString]
  rfl

end PocketLisp
