import PocketLisp.Proofs.Input.Prompted
import PocketLisp.Proofs.Input.Scripts

/-!
# Calls go on

Whatever a source hands out, every call either goes on in the line in hand, or takes the next line,
or reports the failure of the source, until the end is found. No line is met in which there is no
token.

## Main definitions

- `Call`, `TokenStream.serve` — asking for tokens and choosing prompts, in any order
- `TokenStream.Coherent` — what is so of the line in hand between two calls
- `TokenStream.Over` — nothing is handed out any more, and nothing is read
- `TokenStream.Served` — the ways in which a call ends

## Main statements

- `TokenStream.Coherent.cut` — a token is cut from every line that is not used up
- `TokenStream.Coherent.next` — a call keeps the line in hand coherent and ends in one of these ways
- `TokenStream.calls_go_on` — so does every call after any others

## Design notes

Every call has a console of its own, which stands for sinks that refuse some prompts and take
others later. A prompt that is refused makes the read fail, and is a failure of the source here.
-/

namespace PocketLisp

/-- What is done with a stream. -/
inductive Call where
  /-- The next token is asked for. -/
  | next (c : Console)
  /-- The prompt of the next read is chosen. -/
  | setContinuation (continuation : Bool)

/-- The answer to a call when there is nothing to hand out and no prompt is shown. -/
def Call.nothing : Call → Option (Except Failure (Option Token) × Console)
  | next c => some (.ok none, c)
  | setContinuation _ => none

namespace TokenStream

/-- Answers calls, one after another. Every answer comes with the console that the call leaves. -/
def serve : List Call → TokenStream →
    List (Except Failure (Option Token) × Console) × TokenStream
  | [], s => ([], s)
  | .next c :: calls, s =>
    let (item, s, c) := s.next c
    let (answers, s) := serve calls s
    ((item, c) :: answers, s)
  | .setContinuation b :: calls, s => serve calls (s.setContinuation b)

variable {s s' : TokenStream} {c c' : Console} {t : Token} {source : LineSource}

/-! ### The line in hand -/

/-- The line in hand is empty or ends with a newline, and the rest of it begins at the offset. At
the end of the input there is no line in hand. -/
structure Coherent (s : TokenStream) : Prop where
  ended : LineEnded s.line
  offset_le : s.offset ≤ s.line.length
  rest_eq : s.rest = s.line.drop s.offset
  exhausted : s.exhausted = true → s.line = []

/-- The offset in bytes: the bytes of the line that are not those of its rest. -/
def byteOffset (s : TokenStream) : String.Pos.Raw :=
  ⟨(String.ofList s.line).utf8ByteSize - (String.ofList s.rest).utf8ByteSize⟩

theorem coherent_ofSource (source : LineSource) : (ofSource source).Coherent where
  ended := lineEnded_nil
  offset_le := Nat.le_refl 0
  rest_eq := rfl
  exhausted := nofun

theorem Coherent.setContinuation (h : s.Coherent) (b : Bool) : (s.setContinuation b).Coherent :=
  ⟨h.ended, h.offset_le, h.rest_eq, h.exhausted⟩

theorem Coherent.withSource (h : s.Coherent) (source : LineSource) :
    { s with source }.Coherent :=
  ⟨h.ended, h.offset_le, h.rest_eq, h.exhausted⟩

/-- The stream with a text that was read in hand, as a line. The empty text is the end of the
input. -/
def withText (s : TokenStream) (source : LineSource) (text : String) : TokenStream :=
  let line := completeLine text.toList
  { s with
    source, line, offset := 0, rest := line, lineNumber := s.lineNumber + 1,
    exhausted := line.isEmpty }

theorem coherent_withText (s : TokenStream) (source : LineSource) (text : String) :
    (s.withText source text).Coherent where
  ended := lineEnded_completeLine text.toList
  offset_le := Nat.zero_le _
  rest_eq := rfl
  exhausted := List.isEmpty_iff.1

theorem Coherent.ended_rest (h : s.Coherent) : LineEnded s.rest := by
  have hended := h.ended
  rw [← List.take_append_drop s.offset s.line, ← h.rest_eq] at hended
  exact hended.of_append

theorem Coherent.rest_eq_nil_iff (h : s.Coherent) : s.rest = [] ↔ s.offset = s.line.length := by
  rw [h.rest_eq, List.drop_eq_nil_iff]
  have := h.offset_le
  omega

/-- The offset lies between two characters. -/
theorem Coherent.isValid_byteOffset (h : s.Coherent) :
    s.byteOffset.IsValid (String.ofList s.line) := by
  have hline : String.ofList s.line =
      String.ofList (s.line.take s.offset) ++ String.ofList s.rest := by
    rw [h.rest_eq, ← String.ofList_append, List.take_append_drop]
  rw [String.Pos.Raw.isValid_iff_exists_append]
  refine ⟨_, _, hline, ?_⟩
  rw [byteOffset, hline, String.utf8ByteSize_append, Nat.add_sub_cancel_right]
  rfl

/-! ### Cutting a token -/

/-- A token that leaves the stream at `s`: it is no empty word, and it uses up the line only if it
is a newline. -/
structure LeftAt (t : Token) (s : TokenStream) : Prop where
  ne_empty : t.lexeme ≠ .atom ""
  last : s.offset = s.line.length → t.lexeme = .newline

/-- Part of the rest is used up. -/
theorem Coherent.advance {used rest : List Char} (h : s.Coherent) (hrest : s.rest = used ++ rest) :
    { s with offset := s.offset + used.length, rest }.Coherent where
  ended := h.ended
  offset_le := by
    have hlength := congrArg List.length hrest
    rw [h.rest_eq, List.length_drop, List.length_append] at hlength
    have := h.offset_le
    dsimp only
    omega
  rest_eq := by
    dsimp only
    rw [← List.drop_drop, ← h.rest_eq, hrest, List.drop_left]
  exhausted := h.exhausted

/-- From a line that is not used up a token is cut, and the offset moves on. -/
theorem Coherent.cut (h : s.Coherent) (hne : s.rest ≠ []) :
    ∃ t offset rest, s.cut = (.ok t, { s with offset, rest }) ∧ s.offset < offset ∧
      { s with offset, rest }.Coherent ∧ LeftAt t { s with offset, rest } := by
  obtain ⟨l, rest, hscan, -, hlast⟩ := h.ended_rest.exists_scan? hne
  have htext := Lexeme.text_append_of_scan? hscan
  have hpos := List.length_pos_iff.2 (Lexeme.text_ne_nil_of_scan? hscan)
  -- The gap and the token are used up.
  have hrest : s.rest = ((splitGap s.rest).1 ++ l.text.toList) ++ rest := by
    rw [List.append_assoc, htext, splitGap_append]
  have hadvance := h.advance hrest
  rw [List.length_append, String.length_toList, ← Nat.add_assoc] at hadvance
  refine ⟨⟨l, s.lineNumber, s.offset + (splitGap s.rest).1.length + 1⟩, _, rest, ?_, ?_, hadvance,
    ?_, ?_⟩
  · unfold TokenStream.cut
    simp only [hscan]
  · rw [String.length_toList] at hpos
    omega
  · intro hempty
    have hl : l = .atom "" := hempty
    rw [hl] at hpos
    exact absurd hpos (Nat.lt_irrefl 0)
  · intro hoffset
    exact hlast (hadvance.rest_eq_nil_iff.2 hoffset)

/-! ### What a call does -/

/-- Whatever calls are made, and whatever source stands in the place of its own, nothing is handed
out, no prompt is shown and the source is left as it is. -/
def Over (s : TokenStream) : Prop :=
  ∀ (calls : List Call) (source : LineSource),
    (serve calls { s with source }).1 = calls.filterMap Call.nothing ∧
    (serve calls { s with source }).2.source = source

/-- How a call ends that is made on the console `c`: with an answer, and with the stream and the
console that it leaves. -/
inductive Served (s : TokenStream) (c : Console) :
    Except Failure (Option Token) → TokenStream → Console → Prop
  /-- A token of the line in hand is handed out. -/
  | onward {t : Token} {offset : Nat} {rest : List Char} : s.offset < offset →
      LeftAt t { s with offset, rest } → Served s c (.ok (some t)) { s with offset, rest } c
  /-- The line in hand is used up, and the first token of the next one is handed out. -/
  | fresh {text : String} {s' : TokenStream} {t : Token} {c' : Console} : s.Asks →
      s.source.read s.prompt c = (.ok text, s'.source, c') → text ≠ "" →
      s'.line = (Read.line text).completed → 0 < s'.offset → LeftAt t s' →
      Served s c (.ok (some t)) s' c'
  /-- The source has come to its end. -/
  | ended {s' : TokenStream} {c' : Console} : s.Asks →
      s.source.read s.prompt c = (.ok "", s'.source, c') → s'.Over →
      Served s c (.ok none) s' c'
  /-- The end was found before. -/
  | over : s.Over → Served s c (.ok none) s c
  /-- The read of the source fails. -/
  | failed {f : Failure} {source : LineSource} {c' : Console} : s.Asks →
      s.source.read s.prompt c = (.error f, source, c') →
      Served s c (.error f) { s with source } c'

/-- Once the end was found, it is over. -/
theorem over_of_exhausted (hrest : s.rest = []) (hexhausted : s.exhausted = true) : s.Over := by
  intro calls source
  induction calls generalizing s with
  | nil => exact ⟨rfl, rfl⟩
  | cons call calls ih =>
    cases call with
    | next c =>
      have hnext : { s with source }.next c = (.ok none, { s with source }, c) :=
        next_of_exhausted (s := { s with source }) hrest hexhausted c
      obtain ⟨hanswers, hsource⟩ := ih hrest hexhausted
      simp only [serve, hnext, hanswers, hsource, List.filterMap_cons, Call.nothing, and_self]
    | setContinuation b => exact ih (s := s.setContinuation b) hrest hexhausted

/-- A call on a line that is not used up. -/
theorem Coherent.next_of_rest (h : s.Coherent) (hrest : s.rest ≠ []) (c : Console) :
    (s.next c).2.1.Coherent ∧ Served s c (s.next c).1 (s.next c).2.1 (s.next c).2.2 := by
  obtain ⟨t, offset, rest, hcut, hlt, hcoherent, hleft⟩ := h.cut hrest
  rw [TokenStream.next, if_neg (by simpa using hrest), hcut]
  exact ⟨hcoherent, .onward hlt hleft⟩

/-- A call that needs a line. -/
theorem Coherent.next_of_asks (h : s.Coherent) (hasks : s.Asks) (c : Console) :
    (s.next c).2.1.Coherent ∧ Served s c (s.next c).1 (s.next c).2.1 (s.next c).2.2 := by
  rw [TokenStream.next, if_pos (by simp [hasks.1]), refill, if_neg (by simp [hasks.2])]
  rcases hread : s.source.read s.prompt c with ⟨f | text, source, c'⟩
  · exact ⟨h.withSource source, .failed hasks hread⟩
  · have htaken := s.coherent_withText source text
    by_cases htext : text = ""
    · subst htext
      exact ⟨htaken, .ended hasks hread (over_of_exhausted rfl rfl)⟩
    · -- The line is not empty, so a token is cut from it.
      have hline : completeLine text.toList ≠ [] := completeLine_ne_nil (by simpa using htext)
      have hempty : (!(completeLine text.toList).isEmpty) = true := by simpa using hline
      obtain ⟨t, offset, rest, hcut, hlt, hcoherent, hleft⟩ := htaken.cut hline
      rw [withText] at hcut
      simp only [hempty, hcut]
      exact ⟨hcoherent, .fresh hasks hread htext (Read.completed_line text).symm hlt hleft⟩

/-- A call keeps the line in hand coherent, and ends in one of these ways. -/
theorem Coherent.next (h : s.Coherent) (c : Console) :
    (s.next c).2.1.Coherent ∧ Served s c (s.next c).1 (s.next c).2.1 (s.next c).2.2 := by
  by_cases hrest : s.rest = []
  · cases hexhausted : s.exhausted with
    | true =>
      rw [next_of_exhausted hrest hexhausted]
      exact ⟨h, .over (over_of_exhausted hrest hexhausted)⟩
    | false => exact h.next_of_asks ⟨hrest, hexhausted⟩ c
  · exact h.next_of_rest hrest c

theorem Coherent.serve (h : s.Coherent) (calls : List Call) : (serve calls s).2.Coherent := by
  induction calls generalizing s with
  | nil => exact h
  | cons call calls ih =>
    cases call with
    | next c => exact ih (h.next c).1
    | setContinuation b => exact ih (h.setContinuation b)

/-- After any calls on a stream over any source, the line in hand is empty or ends with a newline,
and the offset lies between two characters of it or at its end. Another call hands out a token of
this line or the first of the next one, finds the end, or fails as the read of the source does. No
token is an empty word, and the last one of a line is its newline. Once the end was found, nothing
is handed out and nothing is read. -/
theorem calls_go_on (source : LineSource) (calls : List Call) (c : Console) :
    let s := (serve calls (ofSource source)).2
    s.Coherent ∧ s.byteOffset.IsValid (String.ofList s.line) ∧
      Served s c (s.next c).1 (s.next c).2.1 (s.next c).2.2 := by
  have hcoherent := (coherent_ofSource source).serve calls
  exact ⟨hcoherent, hcoherent.isValid_byteOffset, (hcoherent.next c).2⟩

end TokenStream

end PocketLisp
