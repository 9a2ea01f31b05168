import PocketLisp.Proofs.Input.Prompted
import PocketLisp.Proofs.Input.Scripts

/-!
# Sources of single lines

A source that hands out one line with each read, and may fail in between. The line in hand is that
of the last read, so a token tells which reads were taken when it is handed out.

## Main definitions

- `EndsWithLineOf` — the last read that was taken gave the line of a token
- `TokenStream.OneLine` — a stream over single lines

## Main statements

- `TokenStream.OneLine.next_of_rest` — a token of the line in hand is handed out without a read
- `TokenStream.OneLine.next_of_silent` — a call that needs a line takes one read
-/

namespace PocketLisp

open TokenStream (completeLine completeLine_ne_nil)

/-- The last read that was taken gave the line of the token. -/
def EndsWithLineOf (reads left : List Read) (t : Token) : Prop :=
  ∃ (before : List Read) (text : String), reads = before ++ Read.line text :: left ∧
    t.line = (before ++ [Read.line text]).countP Read.isText ∧
    t ∈ tokensOfLine t.line 0 (Read.line text).completed

theorem line_of_mem_tokensOfLine {number offset : Nat} {cs : List Char} {t : Token}
    (h : t ∈ tokensOfLine number offset cs) : t.line = number := by
  fun_induction tokensOfLine number offset cs with
  | case1 => cases h
  | case2 offset cs l rest hscan before ih =>
    rcases List.mem_cons.1 h with rfl | h
    · rfl
    · exact ih h

/-- A line without a line end, or with one at its end, is a line once it has its line end. -/
theorem isLine_of_notMem_dropLast {cs : List Char} (h : '\n' ∉ cs.dropLast) (hne : cs ≠ []) :
    IsLine (completeLine cs) := by
  obtain ⟨ds, d, rfl⟩ := (List.eq_nil_or_concat cs).resolve_left hne
  rw [List.concat_eq_append, List.dropLast_concat] at h
  by_cases hd : d = '\n'
  · exact ⟨ds, by simp [completeLine, hd], h⟩
  · exact ⟨ds ++ [d], by simp [completeLine, hd], by simp [h, Ne.symm hd]⟩

namespace TokenStream

/-- A stream over some reads, of which it took the first, that each give a single line. -/
structure OneLine (reads : List Read) (p : Prompting) (s : TokenStream) : Prop where
  scripted : Scripted reads s.quiet
  prompting : s.source.prompting = p
  single : ∀ text, .line text ∈ s.source.reads → '\n' ∉ text.toList.dropLast
  inHand : s.rest ≠ [] → IsLine s.rest ∧
    ∀ t ∈ tokensOfLine s.lineNumber s.offset s.rest, EndsWithLineOf reads s.source.reads t

variable {s s' : TokenStream} {reads : List Read} {p : Prompting} {c : Console}

theorem OneLine.setContinuation (h : OneLine reads p s) (b : Bool) :
    OneLine reads p (s.setContinuation b) where
  scripted := ⟨h.scripted.silent, h.scripted.ended, h.scripted.exhausted, h.scripted.taken⟩
  prompting := h.prompting
  single := h.single
  inHand := h.inHand

theorem oneLine_ofSource (h : ∀ text, .line text ∈ reads → '\n' ∉ text.toList.dropLast)
    (p : Prompting) : OneLine reads p (ofSource ⟨reads, p⟩) where
  scripted := scripted_ofSource reads
  prompting := rfl
  single := h
  inHand hne := absurd rfl hne

/-- A token of the line in hand is handed out without a read. It is the newline exactly when it
uses the line up. -/
theorem OneLine.next_of_rest (h : OneLine reads p s) (hne : s.rest ≠ []) :
    ∃ t s', (∀ c, s.next c = (.ok (some t), s', c)) ∧ OneLine reads p s' ∧
      s'.source.reads = s.source.reads ∧ EndsWithLineOf reads s.source.reads t ∧
      (t.lexeme = .newline ↔ s'.rest = []) := by
  obtain ⟨hline, htokens⟩ := h.inHand hne
  obtain ⟨t, offset, rest, hnext, hended, hscan, heq⟩ :=
    TokenStream.next_of_rest hline.lineEnded hne
  rw [heq, List.forall_mem_cons] at htokens
  refine ⟨t, { s with offset, rest }, hnext, ?_, rfl, htokens.1, ?_⟩
  · constructor
    case scripted =>
      have hexhausted : s.exhausted = true → rest = [] :=
        fun hex => absurd (h.scripted.exhausted hex) hne
      exact ⟨rfl, hended, hexhausted, h.scripted.taken⟩
    case prompting => exact h.prompting
    case single => exact h.single
    case inHand =>
      intro hrest
      rcases hline.rest hscan with ⟨-, hnil⟩ | ⟨-, hmore⟩
      · exact absurd hnil hrest
      · exact ⟨hmore, htokens.2⟩
  · rcases hline.rest hscan with ⟨hnewline, hnil⟩ | ⟨htext, hmore⟩
    · simp [hnewline, hnil]
    · have hlexeme : t.lexeme ≠ .newline := by
        intro hnewline
        rw [hnewline] at htext
        exact htext (by decide)
      simp [hlexeme, hmore.ne_nil]

theorem OneLine.withPrompting (h : OneLine reads p s) (q : Prompting) :
    OneLine reads q (s.withPrompting q) where
  scripted := h.scripted
  prompting := rfl
  single := h.single
  inHand := h.inHand

/-- A stream with no line in hand. -/
theorem Scripted.oneLine (h : Scripted reads s)
    (hsingle : ∀ text, .line text ∈ s.source.reads → '\n' ∉ text.toList.dropLast)
    (hrest : s.rest = []) : OneLine reads .silent s where
  scripted := by rwa [quiet_of_silent h.silent]
  prompting := h.silent
  single := hsingle
  inHand hne := absurd hrest hne

/-- A stream takes the next line. -/
theorem OneLine.withLine {text : String} {left : List Read} (h : OneLine reads .silent s)
    (hexhausted : s.exhausted = false) (hreads : s.source.reads = .line text :: left)
    (htext : text ≠ "") : OneLine reads .silent (s.withLine text.toList left) where
  scripted := h.scripted.withLine hreads htext hexhausted
  prompting := rfl
  single u hu := h.single u (by rw [hreads]; exact List.mem_cons_of_mem _ hu)
  inHand _ := by
    have hline := h.single text (by rw [hreads]; exact List.mem_cons_self)
    refine ⟨isLine_of_notMem_dropLast hline (by simpa using htext), fun t ht => ?_⟩
    obtain ⟨taken, heq, hnumber⟩ := h.scripted.taken
    have hnumber' : s.lineNumber = taken.countP Read.isText + if s.exhausted then 1 else 0 :=
      hnumber
    -- The line is numbered by the texts that were taken, itself included.
    have hcount : s.lineNumber + 1 = (taken ++ [Read.line text]).countP Read.isText := by
      rw [hnumber', hexhausted, List.countP_append]
      simp [Read.isText, htext]
    have ht' : t ∈ tokensOfLine (s.lineNumber + 1) 0 (completeLine text.toList) := ht
    have htline := line_of_mem_tokensOfLine ht'
    refine ⟨taken, text, ?_, htline.trans hcount, by rwa [htline, Read.completed_line]⟩
    rw [heq]
    exact congrArg (taken ++ ·) hreads

/-- A call that needs a line takes one read. -/
theorem OneLine.next_of_silent (h : OneLine reads .silent s) (hasks : s.Asks) :
    ∃ item s', (∀ c, s.next c = (item, s', c)) ∧ OneLine reads .silent s' ∧
      s'.source.reads = s.source.reads.tail ∧
      ∀ t, item = .ok (some t) → EndsWithLineOf reads s'.source.reads t ∧
        (t.lexeme = .newline ↔ s'.rest = []) := by
  obtain ⟨hrest, hexhausted⟩ := hasks
  have hscripted : Scripted reads s := by
    rw [← quiet_of_silent h.prompting]
    exact h.scripted
  have hread := fun c => LineSource.read_of_silent h.prompting s.prompt c
  have hsingle : ∀ text, .line text ∈ s.source.reads.tail → '\n' ∉ text.toList.dropLast :=
    fun text htext => h.single text (List.mem_of_mem_tail htext)
  rcases hreads : s.source.reads with - | ⟨⟨text⟩ | ⟨f⟩, left⟩
  · simp only [hreads] at hread hsingle
    have hend := hscripted.atEnd (r := []) hreads rfl hexhausted
    exact ⟨_, _, next_of_empty hrest hexhausted hread, hend.oneLine hsingle rfl, rfl, nofun⟩
  · by_cases htext : text = ""
    · subst htext
      simp only [hreads] at hread
      rw [hreads] at hsingle
      have hend := hscripted.atEnd (r := [.line ""]) hreads rfl hexhausted
      exact ⟨_, _, next_of_empty hrest hexhausted hread, hend.oneLine hsingle rfl, rfl, nofun⟩
    · -- The token is the first one of the line that was taken.
      have hline : text.toList ≠ [] := by simpa using htext
      obtain ⟨t, s', hnext, h', hsame, hlast, hnewline⟩ :=
        (h.withLine hexhausted hreads htext).next_of_rest (completeLine_ne_nil hline)
      refine ⟨.ok (some t), s', fun c => ?_, h', hsame, ?_⟩
      · rw [next_of_line c h.prompting (by rw [hreads, String.ofList_toList]) hline hrest
          hexhausted]
        exact hnext c
      · rintro u ⟨⟩
        rw [hsame]
        exact ⟨hlast, hnewline⟩
  · simp only [hreads] at hread
    rw [hreads] at hsingle
    have hfailed := hscripted.failed hreads
    exact ⟨_, _, next_of_failure hrest hexhausted hread, hfailed.oneLine hsingle hrest, rfl, nofun⟩

end TokenStream

end PocketLisp
