import PocketLisp.Proofs.Input.Lossless
import PocketLisp.Proofs.Input.Prompts

/-!
# Scripted sources

A source may hand out any texts, with several line ends in them or without one at the end, and may
fail in between. A failing read loses nothing, and how a text is cut into reads does not matter for
what its tokens are.

## Main definitions

- `liveReads` — the reads up to the end of the input
- `IsCutAt` — a text cut into pieces with places on a single line
- `ScriptItems` — what calls answer for some reads
- `TokenStream.itemsLeft` — what calls have still to answer
- `TokenStream.Scripted` — a stream over some reads, of which it took the first

## Main statements

- `exists_isCutAt` — the tokens of a text cut it
- `scriptItems_itemsOf` — the items that reads are good for
- `lexemes_itemsOf` — they have the lexemes of all texts together
- `TokenStream.Scripted.next_answers` — a call answers with the first of the items that are left
- `TokenStream.Scripted.nexts` — and so do all calls, one after another
-/

namespace PocketLisp

open TokenStream (completeLine)

/-! ### Reads -/

namespace Read

/-- The text of a read as characters, with a line end if it is not empty and lacks one; nothing for
a failure. -/
def completed : Read → List Char
  | line text =>
    if text.toList = [] ∨ text.toList.getLast? = some '\n' then text.toList
    else text.toList ++ ['\n']
  | failure _ => []

theorem completed_line (text : String) : (line text).completed = completeLine text.toList :=
  (TokenStream.completeLine_eq text.toList).symm

theorem lineEnded_completed (r : Read) : LineEnded r.completed := by
  cases r with
  | line text =>
    rw [completed_line]
    exact TokenStream.lineEnded_completeLine text.toList
  | failure f => exact lineEnded_nil

/-- Whether a read finds the end of the input. -/
def isEnd : Read → Bool
  | line text => text == ""
  | failure _ => false

/-- Whether a read gives a text that is not empty. -/
def isText : Read → Bool
  | line text => text != ""
  | failure _ => false

end Read

/-- The reads up to the end of the input. -/
def liveReads (reads : List Read) : List Read := reads.takeWhile fun r => !r.isEnd

theorem liveReads_empty (reads : List Read) : liveReads (.line "" :: reads) = [] := rfl

theorem liveReads_cons {r : Read} (h : r.isEnd = false) (reads : List Read) :
    liveReads (r :: reads) = r :: liveReads reads :=
  List.takeWhile_cons_of_pos (by simp [h])

/-- What a source without prompts gives. -/
theorem LineSource.read_of_silent {source : LineSource} (h : source.prompting = .silent)
    (prompt : String) (c : Console) :
    source.read prompt c =
      match source.reads with
      | [] => (.ok "", ⟨[], .silent⟩, c)
      | .line text :: reads => (.ok text, ⟨reads, .silent⟩, c)
      | .failure f :: reads => (.error f, ⟨reads, .silent⟩, c) := by
  obtain ⟨reads, p⟩ := source
  cases h
  rcases reads with - | ⟨⟨text⟩ | ⟨f⟩, reads⟩
  · rfl
  · rfl
  · rfl

/-! ### The items for some reads -/

/-- A text cut into pieces: tokens with gaps in front of them. They all are on the line with this
number, and the column of a token is the number of characters before it, more than `offset`. -/
structure IsCutAt (number offset : Nat) (text : List Char) (ps : List Piece) : Prop where
  text : ps.flatMap Piece.chars = text
  gap : ∀ p ∈ ps, IsGap p.gap p.token.lexeme
  line : ∀ p ∈ ps, p.token.line = number
  column : ∀ before p after, ps = before ++ p :: after →
    p.token.column = offset + (before.flatMap Piece.chars ++ p.gap).length + 1

/-- The items that reads are good for, when `number` texts were read before them: one error for each
failure, in its place, and for each text its tokens. -/
inductive ScriptItems : Nat → List Read → List (Except Failure (Option Token)) → Prop
  | nil {number : Nat} : ScriptItems number [] []
  | failure {number : Nat} {f : Failure} {reads : List Read}
      {items : List (Except Failure (Option Token))} :
      ScriptItems number reads items → ScriptItems number (.failure f :: reads) (.error f :: items)
  | line {number : Nat} {text : String} {reads : List Read} {ps : List Piece}
      {items : List (Except Failure (Option Token))} :
      IsCutAt (number + 1) 0 (Read.line text).completed ps → ScriptItems (number + 1) reads items →
        ScriptItems number (.line text :: reads) (ps.map (fun p => .ok (some p.token)) ++ items)

/-- These items, as they are found. -/
def itemsOf (number : Nat) : List Read → List (Except Failure (Option Token))
  | [] => []
  | .failure f :: reads => .error f :: itemsOf number reads
  | .line text :: reads =>
    (tokensOfLine (number + 1) 0 (completeLine text.toList)).map (fun t => .ok (some t)) ++
      itemsOf (number + 1) reads

/-- What `n` calls answer when these items are left: the items, and after them nothing. -/
def answersOf (n : Nat) (items : List (Except Failure (Option Token))) :
    List (Except Failure (Option Token)) :=
  items.take n ++ List.replicate (n - items.length) (.ok none)

theorem answersOf_succ (n : Nat) (items : List (Except Failure (Option Token))) :
    answersOf (n + 1) items = items.headD (.ok none) :: answersOf n items.tail := by
  cases items with
  | nil => simp [answersOf, List.replicate_succ]
  | cons item items => simp [answersOf]

/-- The tokens among some items. -/
def tokensIn (items : List (Except Failure (Option Token))) : List Token :=
  items.filterMap fun
    | .ok t => t
    | .error _ => none

theorem IsCutAt.cons {number offset : Nat} {text : List Char} {p : Piece} {ps : List Piece}
    (h : IsCutAt number (offset + p.chars.length) text ps) (hgap : IsGap p.gap p.token.lexeme)
    (hline : p.token.line = number) (hcolumn : p.token.column = offset + p.gap.length + 1) :
    IsCutAt number offset (p.chars ++ text) (p :: ps) where
  text := by rw [List.flatMap_cons, h.text]
  gap := List.forall_mem_cons.2 ⟨hgap, h.gap⟩
  line := List.forall_mem_cons.2 ⟨hline, h.line⟩
  column before q after heq := by
    cases before with
    | nil =>
      cases heq
      exact hcolumn
    | cons q' before =>
      cases heq
      have hlength : (p.chars ++ (before.flatMap Piece.chars ++ q.gap)).length =
          p.chars.length + (before.flatMap Piece.chars ++ q.gap).length := List.length_append
      rw [h.column before q after rfl, List.flatMap_cons, List.append_assoc, hlength]
      omega

/-- The tokens of a text cut it. -/
theorem exists_isCutAt {cs : List Char} (h : LineEnded cs) (number offset : Nat) :
    ∃ ps : List Piece, ps.map Piece.token = tokensOfLine number offset cs ∧
      IsCutAt number offset cs ps := by
  fun_induction tokensOfLine number offset cs with
  | case1 offset cs hscan =>
    cases h.eq_nil_of_scan? hscan
    exact ⟨[], rfl, rfl, List.forall_mem_nil _, List.forall_mem_nil _, fun _ _ _ heq => by
      simp at heq⟩
  | case2 offset cs l rest hscan =>
    rename_i ih
    obtain ⟨ps, htokens, hps⟩ := ih (h.scan?_append hscan []).1
    let p : Piece := ⟨(splitGap cs).1, ⟨l, number, offset + (splitGap cs).1.length + 1⟩⟩
    have hlength : offset + p.chars.length =
        offset + (splitGap cs).1.length + l.text.length := by
      rw [Piece.chars, List.length_append, String.length_toList, Nat.add_assoc]
      rfl
    have hchars : p.chars ++ rest = cs := by
      rw [Piece.chars, List.append_assoc, ← splitGap_append cs]
      exact congrArg _ (Lexeme.text_append_of_scan? hscan)
    refine ⟨p :: ps, by rw [List.map_cons, htokens], ?_⟩
    rw [← hlength] at hps
    rw [← hchars]
    exact hps.cons (isGap_splitGap hscan) rfl rfl

theorem scriptItems_itemsOf (number : Nat) (reads : List Read) :
    ScriptItems number reads (itemsOf number reads) := by
  induction reads generalizing number with
  | nil => exact .nil
  | cons r reads ih =>
    cases r with
    | failure f => exact .failure (ih number)
    | line text =>
      obtain ⟨ps, htokens, hps⟩ :=
        exists_isCutAt (Read.line text).lineEnded_completed (number + 1) 0
      have hitems := ScriptItems.line hps (ih (number + 1))
      rw [itemsOf, ← Read.completed_line, ← htokens, List.map_map]
      exact hitems

/-! ### All texts together -/

theorem tokensIn_tokens (ts : List Token) (items : List (Except Failure (Option Token))) :
    tokensIn (ts.map (fun t => .ok (some t)) ++ items) = ts ++ tokensIn items := by
  induction ts with
  | nil => rfl
  | cons t ts ih => exact congrArg (t :: ·) ih

/-- The items for some reads have the lexemes of all their texts together. -/
theorem lexemes_itemsOf (number : Nat) (reads : List Read) :
    (tokensIn (itemsOf number reads)).map Token.lexeme =
      Lexeme.scanAll (reads.flatMap Read.completed) := by
  induction reads generalizing number with
  | nil => exact Lexeme.scanAll_nil.symm
  | cons r reads ih =>
    cases r with
    | failure f => exact ih number
    | line text =>
      rw [itemsOf, tokensIn_tokens, List.map_append, ih, lexemes_tokensOfLine, List.flatMap_cons,
        (Read.line text).lineEnded_completed.scanAll_append, Read.completed_line]

/-- The lexemes of a text. -/
theorem lexemes_tokensOfLines (number : Nat) {lines : List (List Char)}
    (h : ∀ line ∈ lines, LineEnded line) :
    (tokensOfLines number lines).map Token.lexeme = Lexeme.scanAll lines.flatten := by
  induction lines generalizing number with
  | nil => exact Lexeme.scanAll_nil.symm
  | cons line lines ih =>
    obtain ⟨hline, hlines⟩ := List.forall_mem_cons.1 h
    rw [tokensOfLines, List.map_append, lexemes_tokensOfLine, ih _ hlines, List.flatten_cons,
      hline.scanAll_append]

theorem lexemes_tokenize (text : String) :
    ∃ ts, tokenize text = .ok ts ∧
      ts.map Token.lexeme = Lexeme.scanAll (completeLine text.toList) := by
  refine ⟨_, tokenize_eq text, ?_⟩
  rw [lexemes_tokensOfLines, flatten_completeLines]
  intro line hline
  obtain ⟨piece, -, rfl⟩ := List.mem_map.1 hline
  exact TokenStream.lineEnded_completeLine piece

/-! ### Streams -/

namespace TokenStream

/-- What calls have still to answer: the tokens of the line in hand, and then the items for the
reads to come. -/
def itemsLeft (s : TokenStream) : List (Except Failure (Option Token)) :=
  (tokensOfLine s.lineNumber s.offset s.rest).map (fun t => .ok (some t)) ++
    if s.exhausted then [] else itemsOf s.lineNumber (liveReads s.source.reads)

/-- A stream over some reads, of which it took the first. It counts those that gave a text, and the
one that found the end. -/
structure Scripted (reads : List Read) (s : TokenStream) : Prop where
  silent : s.source.prompting = .silent
  ended : LineEnded s.rest
  exhausted : s.exhausted = true → s.rest = []
  taken : ∃ taken, reads = taken ++ s.source.reads ∧
    s.lineNumber = taken.countP Read.isText + if s.exhausted then 1 else 0

variable {s s' : TokenStream} {reads : List Read}

theorem scripted_ofSource (reads : List Read) : Scripted reads (ofSource ⟨reads, .silent⟩) where
  silent := rfl
  ended := lineEnded_nil
  exhausted := nofun
  taken := ⟨[], rfl, rfl⟩

theorem itemsLeft_ofSource (reads : List Read) :
    (ofSource ⟨reads, .silent⟩).itemsLeft = itemsOf 0 (liveReads reads) := by
  simp [itemsLeft, ofSource, tokensOfLine_nil]

/-- A stream that found the end of the input. -/
def atEnd (s : TokenStream) (reads : List Read) : TokenStream :=
  { s with
    source := ⟨reads, .silent⟩, line := [], offset := 0, rest := [],
    lineNumber := s.lineNumber + 1, exhausted := true }

/-- An empty text is the end of the input. -/
theorem next_of_empty {left : List Read} (hrest : s.rest = []) (hexhausted : s.exhausted = false)
    (hread : ∀ c, s.source.read s.prompt c = (.ok "", ⟨left, .silent⟩, c)) (c : Console) :
    s.next c = (.ok none, s.atEnd left, c) := by
  have hrefill : s.refill c = (.ok false, s.atEnd left, c) := by
    rw [refill, if_neg (by simp [hexhausted]), hread]
    rfl
  rw [next, if_pos (by simp [hrest]), hrefill]

/-- A failing read leaves the stream as it was, but for the reads to come. -/
theorem next_of_failure {f : Failure} {left : List Read} (hrest : s.rest = [])
    (hexhausted : s.exhausted = false)
    (hread : ∀ c, s.source.read s.prompt c = (.error f, ⟨left, .silent⟩, c)) (c : Console) :
    s.next c = (.error f, { s with source := ⟨left, .silent⟩ }, c) := by
  have hrefill : s.refill c = (.error f, { s with source := ⟨left, .silent⟩ }, c) := by
    rw [refill, if_neg (by simp [hexhausted]), hread]
  rw [next, if_pos (by simp [hrest]), hrefill]

/-- After the end nothing is read. -/
theorem next_of_exhausted (hrest : s.rest = []) (hexhausted : s.exhausted = true) (c : Console) :
    s.next c = (.ok none, s, c) := by
  rw [next, if_pos (by simp [hrest]), refill, if_pos hexhausted]

theorem itemsLeft_of_rest_eq_nil (hrest : s.rest = []) (hexhausted : s.exhausted = false) :
    s.itemsLeft = itemsOf s.lineNumber (liveReads s.source.reads) := by
  simp [itemsLeft, hrest, hexhausted, tokensOfLine_nil]

theorem itemsLeft_of_exhausted (hrest : s.rest = []) (hexhausted : s.exhausted = true) :
    s.itemsLeft = [] := by
  simp [itemsLeft, hrest, hexhausted, tokensOfLine_nil]

namespace Scripted

/-- A call answers with the first of the items that are left, and leaves the others. Where there is
none, it finds the end. -/
def Answers (reads : List Read) (s : TokenStream) : Prop :=
  ∃ s', (∀ c, s.next c = (s.itemsLeft.headD (.ok none), s', c)) ∧ Scripted reads s' ∧
    s'.itemsLeft = s.itemsLeft.tail ∧
    (s'.exhausted = true ↔ s.exhausted = true ∨ s.itemsLeft = [])

/-- A line in hand that is not used up answers with a token. -/
theorem answers_of_rest (h : Scripted reads s) (hne : s.rest ≠ []) : Answers reads s := by
  obtain ⟨t, offset, rest, hnext, hended, -, htokens⟩ := next_of_rest h.ended hne
  have hleft : s.itemsLeft = .ok (some t) :: { s with offset, rest }.itemsLeft := by
    rw [itemsLeft, htokens]
    rfl
  refine ⟨{ s with offset, rest }, fun c => ?_, ?_, ?_, ?_⟩
  · rw [hleft, hnext]
    rfl
  · exact ⟨h.silent, hended, fun hex => absurd (h.exhausted hex) hne, h.taken⟩
  · rw [hleft]
    rfl
  · rw [hleft, or_iff_left (List.cons_ne_nil _ _)]

/-- Where no item is left, it is enough that a call finds the end. -/
theorem answers_of_end {s' : TokenStream} (hleft : s.itemsLeft = [])
    (hnext : ∀ c, s.next c = (.ok none, s', c)) (h : Scripted reads s')
    (hexhausted : s'.exhausted = true) : Answers reads s := by
  refine ⟨s', fun c => ?_, h, ?_, ?_⟩
  · rw [hleft, hnext]
    rfl
  · rw [hleft, itemsLeft_of_exhausted (h.exhausted hexhausted) hexhausted]
    rfl
  · rw [hleft, hexhausted]
    simp

/-- When the line is used up, the stream goes on with the next text. -/
theorem withLine {text : String} {left : List Read} (h : Scripted reads s)
    (hreads : s.source.reads = .line text :: left) (htext : text ≠ "")
    (hexhausted : s.exhausted = false) : Scripted reads (s.withLine text.toList left) where
  silent := rfl
  ended := lineEnded_completeLine text.toList
  exhausted := nofun
  taken := by
    obtain ⟨taken, heq, hnumber⟩ := h.taken
    refine ⟨taken ++ [.line text], by rw [heq, hreads, List.append_assoc]; rfl, ?_⟩
    rw [hexhausted] at hnumber
    simp [TokenStream.withLine, hnumber, Read.isText, htext]

theorem atEnd {left : List Read} {r : List Read} (h : Scripted reads s)
    (hreads : s.source.reads = r ++ left) (hr : r.countP Read.isText = 0)
    (hexhausted : s.exhausted = false) : Scripted reads (s.atEnd left) where
  silent := rfl
  ended := lineEnded_nil
  exhausted _ := rfl
  taken := by
    obtain ⟨taken, heq, hnumber⟩ := h.taken
    refine ⟨taken ++ r, by rw [heq, hreads, List.append_assoc]; rfl, ?_⟩
    rw [hexhausted] at hnumber
    simp [TokenStream.atEnd, hnumber, hr]

theorem failed {f : Failure} {left : List Read} (h : Scripted reads s)
    (hreads : s.source.reads = .failure f :: left) :
    Scripted reads { s with source := ⟨left, .silent⟩ } where
  silent := rfl
  ended := h.ended
  exhausted := h.exhausted
  taken := by
    obtain ⟨taken, heq, hnumber⟩ := h.taken
    refine ⟨taken ++ [.failure f], by rw [heq, hreads, List.append_assoc]; rfl, ?_⟩
    simp [hnumber, Read.isText]

/-- A call answers with the first of the items that are left, or else finds the end. -/
theorem next_answers (h : Scripted reads s) : Answers reads s := by
  by_cases hrest : s.rest = []
  · cases hexhausted : s.exhausted with
    | true =>
      exact answers_of_end (itemsLeft_of_exhausted hrest hexhausted)
        (next_of_exhausted hrest hexhausted) h hexhausted
    | false =>
      have hleft := itemsLeft_of_rest_eq_nil hrest hexhausted
      have hread := fun c => LineSource.read_of_silent h.silent s.prompt c
      rcases hreads : s.source.reads with - | ⟨⟨text⟩ | ⟨f⟩, left⟩
      · rw [hreads] at hleft
        simp only [hreads] at hread
        exact answers_of_end hleft (next_of_empty hrest hexhausted hread)
          (h.atEnd (r := []) hreads rfl hexhausted) rfl
      · by_cases htext : text = ""
        · subst htext
          rw [hreads, liveReads_empty] at hleft
          simp only [hreads] at hread
          exact answers_of_end hleft (next_of_empty hrest hexhausted hread)
            (h.atEnd (r := [.line ""]) hreads rfl hexhausted) rfl
        · -- The call is that of the stream with the text in hand.
          have hline : text.toList ≠ [] := by simpa using htext
          have hnext : ∀ c, s.next c = (s.withLine text.toList left).next c := fun c =>
            next_of_line c h.silent (by rw [hreads, String.ofList_toList]) hline hrest hexhausted
          have hlive := liveReads_cons (r := .line text) (by simp [Read.isEnd, htext]) left
          have hsame : s.itemsLeft = (s.withLine text.toList left).itemsLeft := by
            rw [hleft, hreads, hlive]
            rfl
          have hanswers := (h.withLine hreads htext hexhausted).answers_of_rest
            (completeLine_ne_nil hline)
          unfold Answers at hanswers ⊢
          simp only [hnext, hsame, hexhausted]
          exact hanswers
      · rw [hreads, liveReads_cons rfl] at hleft
        simp only [hreads] at hread
        refine ⟨_, fun c => ?_, h.failed hreads, ?_, ?_⟩
        · rw [hleft, next_of_failure hrest hexhausted hread]
          rfl
        · rw [hleft]
          exact itemsLeft_of_rest_eq_nil hrest hexhausted
        · rw [hleft, itemsOf, or_iff_left (List.cons_ne_nil _ _)]
  · exact h.answers_of_rest hrest

/-- Calls answer with the items that are left, and then with nothing. -/
theorem nexts (h : Scripted reads s) (n : Nat) (c : Console) :
    ∃ s', s.nexts n c = (answersOf n s.itemsLeft, s', c) ∧ Scripted reads s' ∧
      (s'.exhausted = true ↔ s.exhausted = true ∨ s.itemsLeft.length < n) := by
  induction n generalizing s with
  | zero => exact ⟨s, by simp [answersOf, TokenStream.nexts], h, by simp⟩
  | succ n ih =>
    obtain ⟨s₁, hnext, h₁, hleft, hexhausted⟩ := h.next_answers
    obtain ⟨s', hnexts, h', hiff⟩ := ih h₁
    refine ⟨s', ?_, h', ?_⟩
    · rw [nexts_succ n (hnext c), hnexts, answersOf_succ, hleft]
    · rw [hiff, hexhausted, hleft, or_assoc, List.length_tail]
      cases s.itemsLeft with
      | nil => simp
      | cons item items => simp

end Scripted

end TokenStream

end PocketLisp
