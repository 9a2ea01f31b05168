import PocketLisp.Proofs.Input.Forms
import PocketLisp.Proofs.Input.Silent
import PocketLisp.Proofs.Input.SingleLines

/-!
# Prompts and what is read ahead

Before each read one prompt is shown, which tells whether a form has begun. Nothing is read that the
form does not need: when it ends, the line of its last token was the last one that was taken.

## Main definitions

- `Attempt`, `Attempt.Fits` — a read that is attempted while a form is read, with the prompt that
  fits
- `TokenStream.attempts` — those of one reading of a form
- `Command`, `TokenStream.perform` — readings of forms, with choices of the prompt in between
- `PromptedReads` — attempts that each show a prompt and then take a read
- `TokenStream.StopsAfter` — the line of a form's last token is the last one that was taken
- `TokenStream.Reading` — a stream over single lines while a form is read

## Main statements

- `TokenStream.OneLine.next` — what one call does
- `TokenStream.Reading.readFormAfter` — what the reading of a form does
- `TokenStream.perform_prompted` — what all of them do
-/

namespace PocketLisp

/-! ### Attempts -/

/-- A read of the source that is attempted while a form is read: the tokens collected so far, latest
first, the parentheses that they leave open, and what the read is attempted with. -/
structure Attempt where
  collected : List Token
  depth : Int
  stream : TokenStream
  console : Console

/-- The prompt that is shown. -/
def Attempt.prompt (a : Attempt) : String := a.stream.prompt

/-- What the prompt tells is so. It tells whether the form has begun, and a form that has begun when
a line is read is one with open parentheses. If the prompt is refused, nothing is taken. -/
structure Attempt.Fits (a : Attempt) : Prop where
  nesting : a.depth = Token.balance a.collected
  begun : a.collected ≠ [] ↔ 0 < a.depth
  continuation : a.prompt = "  > " ↔ a.collected ≠ []
  primary : a.prompt = "--> " ↔ a.collected = []
  refused : ∀ {f : Failure} {c c' : Console},
    a.stream.source.prompting.ask a.prompt c = (.error f, c') →
      a.stream.next c = (.error f, a.stream, c')

/-- The sink that prompts go to. -/
def Prompting.sink (p : Prompting) (c : Console) : Sink :=
  match p with
  | onOutput => c.out
  | _ => c.prompts

/-- Prompts are shown, and the sink that they go to never fails. -/
structure Prompting.Shows (p : Prompting) (c : Console) : Prop where
  prompts : p ≠ .silent
  room : (p.sink c).room = none
  flush : (p.sink c).flushFails = false

namespace TokenStream

instance (s : TokenStream) : Decidable s.Asks :=
  inferInstanceAs (Decidable (s.rest = [] ∧ s.exhausted = false))

/-- The read that the next call attempts, if it needs a line. -/
def attempt (seen : List Token) (depth : Int) (s : TokenStream) (c : Console) : List Attempt :=
  if s.Asks then [⟨seen, depth, s, c⟩] else []

/-- The reads that `readFormAfter` attempts. -/
def attemptsAfter (seen : List Token) (depth : Int) (s : TokenStream) (c : Console) :
    List Attempt :=
  s.attempt seen depth c ++
    match _h : s.next c with
    | (.error _, _, _) | (.ok none, _, _) => []
    | (.ok (some t), s', c') =>
      if t.lexeme = .newline then
        if depth ≤ 0 ∧ seen ≠ [] then []
        else attemptsAfter seen depth (s'.setContinuation (!seen.isEmpty)) c'
      else attemptsAfter (t :: seen) (depth + t.lexeme.nesting) s' c'
termination_by s.remaining
decreasing_by all_goals simpa using remaining_lt_of_next _h

section

variable {s s' : TokenStream} {c c' : Console}

theorem attemptsAfter_of_none {item : Except Failure (Option Token)} {seen : List Token}
    {depth : Int} (h : s.next c = (item, s', c')) (hitem : ∀ t, item ≠ .ok (some t)) :
    attemptsAfter seen depth s c = s.attempt seen depth c := by
  rw [attemptsAfter]
  split
  · exact List.append_nil _
  · exact List.append_nil _
  · next h' => rw [h] at h'; cases h'; exact absurd rfl (hitem _)

theorem attemptsAfter_of_token {t : Token} (seen : List Token) (depth : Int)
    (h : s.next c = (.ok (some t), s', c')) :
    attemptsAfter seen depth s c = s.attempt seen depth c ++
      if t.lexeme = .newline then
        if depth ≤ 0 ∧ seen ≠ [] then []
        else attemptsAfter seen depth (s'.setContinuation (!seen.isEmpty)) c'
      else attemptsAfter (t :: seen) (depth + t.lexeme.nesting) s' c' := by
  rw [attemptsAfter]
  split
  · next h' => rw [h] at h'; cases h'
  · next h' => rw [h] at h'; cases h'
  · next h' => rw [h] at h'; cases h'; rfl

end

/-- The reads that the reading of a form attempts. -/
def attempts (s : TokenStream) (c : Console) : List Attempt :=
  attemptsAfter [] 0 (s.setContinuation false) c

end TokenStream

/-- What is done with a stream. -/
inductive Command where
  | readForm
  | setContinuation (continuation : Bool)

/-- Does one thing with a stream after another. The answer is the reads that were attempted. -/
def TokenStream.perform : List Command → TokenStream → Console →
    List Attempt × TokenStream × Console
  | [], s, c => ([], s, c)
  | .setContinuation b :: commands, s, c => perform commands (s.setContinuation b) c
  | .readForm :: commands, s, c =>
    let (_, s', c') := s.readForm c
    let (attempts, s'', c'') := perform commands s' c'
    (s.attempts c ++ attempts, s'', c'')

/-- The attempts are made one after another, with these reads to come at first and those at last.
Each of them first shows its prompt, which the sink takes whole, and then takes the next read.
Nothing else is shown, and nothing else is taken. -/
inductive PromptedReads (p : Prompting) :
    Console → List Read → List Attempt → Console → List Read → Prop
  | nil {c : Console} {reads : List Read} : PromptedReads p c reads [] c reads
  | cons {c c₁ c' : Console} {reads left : List Read} {a : Attempt} {attempts : List Attempt} :
      a.console = c → a.stream.source = ⟨reads, p⟩ → p.ask a.prompt c = (.ok (), c₁) →
      (p.sink c₁).written = (p.sink c).written ++ a.prompt.toUTF8 →
      PromptedReads p c₁ reads.tail attempts c' left →
        PromptedReads p c reads (a :: attempts) c' left

/-- All prompts, one after another. -/
def shown : List Attempt → ByteArray
  | [] => .empty
  | a :: attempts => a.prompt.toUTF8 ++ shown attempts

namespace PromptedReads

variable {p : Prompting} {c c₁ c' : Console} {reads reads₁ left : List Read}
  {attempts more : List Attempt}

theorem append (h : PromptedReads p c reads attempts c₁ reads₁)
    (h' : PromptedReads p c₁ reads₁ more c' left) :
    PromptedReads p c reads (attempts ++ more) c' left := by
  induction h with
  | nil => exact h'
  | cons hconsole hsource hask hwritten _ ih => exact .cons hconsole hsource hask hwritten (ih h')

/-- The sink has the prompts of all attempts. -/
theorem written (h : PromptedReads p c reads attempts c' left) :
    (p.sink c').written = (p.sink c).written ++ shown attempts := by
  induction h with
  | nil => exact ByteArray.append_empty.symm
  | cons _ _ _ hwritten _ ih => rw [ih, hwritten, shown, ByteArray.append_assoc]

/-- Each attempt took one read. -/
theorem left_eq (h : PromptedReads p c reads attempts c' left) :
    left = reads.drop attempts.length := by
  induction h with
  | nil => rfl
  | cons _ _ _ _ _ ih => rw [ih, List.length_cons, List.drop_tail]

end PromptedReads

theorem Sink.deliver_of_room_eq_none {s : Sink} (hroom : s.room = none)
    (hflush : s.flushFails = false) (text : String) :
    s.deliver text = (.ok (), { s with written := s.written ++ text.toUTF8 }) := by
  rw [Sink.deliver, Sink.write_of_room_eq_none hroom]
  simp only [Sink.flush, hflush]
  rfl

/-- A sink that never fails takes a prompt whole, and goes on like that. -/
theorem Prompting.Shows.ask {p : Prompting} {c : Console} (h : p.Shows c) (prompt : String) :
    ∃ c', p.ask prompt c = (.ok (), c') ∧ p.Shows c' ∧
      (p.sink c').written = (p.sink c).written ++ prompt.toUTF8 := by
  obtain ⟨hp, hroom, hflush⟩ := h
  cases p with
  | silent => exact absurd rfl hp
  | written =>
    refine ⟨{ c with prompts := { c.prompts with written := c.prompts.written ++ prompt.toUTF8 } },
      ?_, ⟨hp, hroom, hflush⟩, rfl⟩
    have hwrite : c.prompts.write prompt = _ := Sink.write_of_room_eq_none hroom prompt
    rw [Prompting.ask, hwrite]
    rfl
  | flushed =>
    refine ⟨{ c with prompts := { c.prompts with written := c.prompts.written ++ prompt.toUTF8 } },
      ?_, ⟨hp, hroom, hflush⟩, rfl⟩
    have hdeliver : c.prompts.deliver prompt = _ :=
      Sink.deliver_of_room_eq_none hroom hflush prompt
    rw [Prompting.ask, hdeliver]
    rfl
  | onOutput =>
    refine ⟨{ c with out := { c.out with written := c.out.written ++ prompt.toUTF8 } }, ?_,
      ⟨hp, hroom, hflush⟩, rfl⟩
    have hdeliver : c.out.deliver prompt = _ := Sink.deliver_of_room_eq_none hroom hflush prompt
    rw [Prompting.ask, hdeliver]
    rfl

/-! ### Calls -/

namespace TokenStream

variable {s s' : TokenStream} {reads : List Read} {p : Prompting} {c : Console}

theorem prompt_eq_continuation : s.prompt = "  > " ↔ s.continuation = true := by
  unfold prompt
  split
  · next h => simp [h]
  · next h => simp [h]

theorem prompt_eq_primary : s.prompt = "--> " ↔ s.continuation = false := by
  unfold prompt
  split
  · next h => simp [h]
  · next h => simp [h]

/-- What one call does: it shows a prompt and takes a read if it needs a line, and nothing else. -/
theorem OneLine.next (h : OneLine reads p s) (hc : p.Shows c) (seen : List Token) (depth : Int) :
    ∃ item s' c', s.next c = (item, s', c') ∧ OneLine reads p s' ∧ p.Shows c' ∧
      PromptedReads p c s.source.reads (s.attempt seen depth c) c' s'.source.reads ∧
      ∀ t, item = .ok (some t) → EndsWithLineOf reads s'.source.reads t ∧
        (t.lexeme = .newline ↔ s'.rest = []) ∧
        (s.rest ≠ [] → s'.source.reads = s.source.reads) := by
  by_cases hasks : s.Asks
  · obtain ⟨c', hask, hc', hwritten⟩ := hc.ask s.prompt
    obtain ⟨item, s', hnext, h', hleft, hitem⟩ :=
      (h.withPrompting .silent).next_of_silent (s := s.quiet) hasks
    -- After the prompt the call is that of the stream without prompts.
    have hshown := next_of_shown hasks (by rw [h.prompting]; exact hask) .unlimited
    rw [h.prompting, hnext] at hshown
    refine ⟨item, s'.withPrompting p, c', hshown, h'.withPrompting p, hc', ?_, fun t ht => ?_⟩
    · rw [attempt, if_pos hasks]
      refine .cons rfl ?_ hask hwritten ?_
      · rw [← h.prompting]
      · rw [show (s'.withPrompting p).source.reads = s.source.reads.tail from hleft]
        exact .nil
    · obtain ⟨hlast, hnewline⟩ := hitem t ht
      exact ⟨hlast, hnewline, fun hne => absurd hasks.1 hne⟩
  · have hattempt : s.attempt seen depth c = [] := if_neg hasks
    by_cases hrest : s.rest = []
    · have hexhausted : s.exhausted = true := by simpa [Asks, hrest] using hasks
      refine ⟨.ok none, s, c, next_of_exhausted hrest hexhausted c, h, hc, ?_, fun t ht => ?_⟩
      · rw [hattempt]
        exact .nil
      · cases ht
    · -- The line in hand is not used up, so nothing is attempted.
      obtain ⟨t, s', hnext, h', hsame, hlast, hnewline⟩ := h.next_of_rest hrest
      refine ⟨.ok (some t), s', c, hnext c, h', hc, ?_, ?_⟩
      · rw [hattempt, hsame]
        exact .nil
      · rintro u ⟨⟩
        rw [hsame]
        exact ⟨hlast, hnewline, fun _ => rfl⟩

/-! ### Forms that are read -/

/-- The read of the line of the form's last token is the last one that was taken, and the line is
used up. The form is the request to stop if that token is the word `quit` and the only one. -/
def StopsAfter (reads : List Read) (form : Form) (s : TokenStream) : Prop :=
  ∃ ts t, form = (if (ts ++ [t]).map Token.lexeme = [.atom "quit"] then .quit
      else .tokens (ts ++ [t])) ∧
    EndsWithLineOf reads s.source.reads t ∧ s.rest = []

/-- What is done with a stream over single lines: reads were attempted, each with the prompt that
fits. -/
structure PromptedRun (reads : List Read) (p : Prompting) (before : List Read) (c : Console)
    (attempts : List Attempt) (s' : TokenStream) (c' : Console) : Prop where
  stream : OneLine reads p s'
  shows : p.Shows c'
  prompted : PromptedReads p c before attempts c' s'.source.reads
  fits : ∀ a ∈ attempts, a.Fits

theorem PromptedRun.trans {before : List Read} {c c₁ c' : Console} {s₁ s' : TokenStream}
    {attempts more : List Attempt} (h : PromptedRun reads p before c attempts s₁ c₁)
    (h' : PromptedRun reads p s₁.source.reads c₁ more s' c') :
    PromptedRun reads p before c (attempts ++ more) s' c' where
  stream := h'.stream
  shows := h'.shows
  prompted := h.prompted.append h'.prompted
  fits := List.forall_mem_append.2 ⟨h.fits, h'.fits⟩

/-- A stream while a form is read, of which these tokens were read already. When the line is used
up, the prompt of the next one is chosen, and a form that has begun is one with open parentheses. -/
structure Reading (reads : List Read) (p : Prompting) (seen : List Token) (depth : Int)
    (s : TokenStream) : Prop where
  stream : OneLine reads p s
  nesting : depth = Token.balance seen
  between : s.rest = [] → s.continuation = !seen.isEmpty ∧ (seen ≠ [] → 0 < depth)
  last : ∀ t ∈ seen.head?, depth ≤ 0 → EndsWithLineOf reads s.source.reads t

namespace Reading

variable {seen : List Token} {depth : Int} {t : Token}

theorem fits (h : Reading reads p seen depth s) (c : Console) :
    ∀ a ∈ s.attempt seen depth c, a.Fits := by
  intro a ha
  by_cases hasks : s.Asks
  · rw [attempt, if_pos hasks, List.mem_singleton] at ha
    subst ha
    obtain ⟨hcontinuation, hbegun⟩ := h.between hasks.1
    constructor
    case nesting => exact h.nesting
    case begun =>
      refine ⟨hbegun, ?_⟩
      rintro hpositive rfl
      rw [h.nesting] at hpositive
      exact absurd hpositive (by simp)
    case continuation => exact prompt_eq_continuation.trans (by simp [hcontinuation])
    case primary => exact prompt_eq_primary.trans (by simp [hcontinuation])
    case refused => exact fun hask => next_of_refused hasks hask
  · rw [attempt, if_neg hasks] at ha
    cases ha

/-- A token of a form. -/
theorem part (h : Reading reads p seen depth s) (h' : OneLine reads p s')
    (hlast : EndsWithLineOf reads s'.source.reads t) (hrest : s'.rest ≠ []) :
    Reading reads p (t :: seen) (depth + t.lexeme.nesting) s' where
  stream := h'
  nesting := by rw [Token.balance_cons, ← h.nesting, Int.add_comm]
  between hnil := absurd hnil hrest
  last u hu _ := by
    cases hu
    exact hlast

/-- A line end within a form, or in front of one. -/
theorem lineEnd (h : Reading reads p seen depth s) (h' : OneLine reads p s')
    (hgoes : ¬ (depth ≤ 0 ∧ seen ≠ [])) :
    Reading reads p seen depth (s'.setContinuation (!seen.isEmpty)) where
  stream := h'.setContinuation _
  nesting := h.nesting
  between _ := ⟨rfl, fun hseen => by_contra fun hle => hgoes ⟨Int.not_lt.1 hle, hseen⟩⟩
  last t ht hle := by
    -- Where no parenthesis is open, no token was read yet.
    refine absurd ⟨hle, ?_⟩ hgoes
    rintro rfl
    cases ht

/-- The line end of a form. -/
theorem stopsAfter (h : Reading reads p seen depth s) (hends : depth ≤ 0 ∧ seen ≠ [])
    (hsame : s.rest ≠ [] → s'.source.reads = s.source.reads) (hrest : s'.rest = []) :
    s'.StopsAfter reads (Form.ofTokens seen.reverse) := by
  obtain ⟨hle, hseen⟩ := hends
  obtain ⟨t, ts, rfl⟩ := List.exists_cons_of_ne_nil hseen
  -- The line of the last token is still in hand.
  have hne : s.rest ≠ [] := fun hnil => Int.not_lt.2 hle ((h.between hnil).2 hseen)
  refine ⟨ts.reverse, t, by rw [List.reverse_cons, Form.ofTokens_eq], ?_, hrest⟩
  rw [hsame hne]
  exact h.last t rfl hle

/-- What the reading of a form does. -/
theorem readFormAfter (h : Reading reads p seen depth s) (hc : p.Shows c) :
    ∃ answer s' c', readFormAfter seen depth s c = (answer, s', c') ∧
      PromptedRun reads p s.source.reads c (attemptsAfter seen depth s c) s' c' ∧
      ∀ form, answer = .ok (some form) → s'.StopsAfter reads form := by
  -- Each token leaves less to read.
  induction hn : s.remaining using Nat.strongRecOn generalizing s c seen depth with
  | ind n ih =>
    subst hn
    obtain ⟨item, s₁, c₁, hnext, h₁, hc₁, hprompted, hitem⟩ := h.stream.next hc seen depth
    have hrun : PromptedRun reads p s.source.reads c (s.attempt seen depth c) s₁ c₁ :=
      ⟨h₁, hc₁, hprompted, h.fits c⟩
    rcases item with f | _ | t
    · refine ⟨.error f, s₁, c₁, readFormAfter_of_error seen depth hnext, ?_, nofun⟩
      rwa [attemptsAfter_of_none hnext nofun]
    · refine ⟨.ok none, s₁, c₁, readFormAfter_of_none seen depth hnext, ?_, nofun⟩
      rwa [attemptsAfter_of_none hnext nofun]
    · obtain ⟨hlast, hnewline, hsame⟩ := hitem t rfl
      have hlt : s₁.remaining < s.remaining := remaining_lt_of_next hnext
      rw [readFormAfter_of_token seen depth hnext, attemptsAfter_of_token seen depth hnext]
      by_cases ht : t.lexeme = .newline
      · rw [if_pos ht, if_pos ht]
        by_cases hends : depth ≤ 0 ∧ seen ≠ []
        · rw [if_pos hends, if_pos hends, List.append_nil]
          refine ⟨_, s₁, c₁, rfl, hrun, ?_⟩
          rintro form ⟨⟩
          exact h.stopsAfter hends hsame (hnewline.1 ht)
        · rw [if_neg hends, if_neg hends]
          obtain ⟨answer, s', c', hread, hmore, hform⟩ :=
            ih _ (by simpa using hlt) (h.lineEnd h₁ hends) hc₁ rfl
          exact ⟨answer, s', c', hread, hrun.trans hmore, hform⟩
      · rw [if_neg ht, if_neg ht]
        have hrest : s₁.rest ≠ [] := fun hnil => ht (hnewline.2 hnil)
        obtain ⟨answer, s', c', hread, hmore, hform⟩ :=
          ih _ hlt (h.part h₁ hlast hrest) hc₁ rfl
        exact ⟨answer, s', c', hread, hrun.trans hmore, hform⟩

end Reading

/-- What the reading of a form does. -/
theorem OneLine.readForm (h : OneLine reads p s) (hc : p.Shows c) :
    ∃ answer s' c', s.readForm c = (answer, s', c') ∧
      PromptedRun reads p s.source.reads c (s.attempts c) s' c' ∧
      ∀ form, answer = .ok (some form) → s'.StopsAfter reads form := by
  have hstart : Reading reads p [] 0 (s.setContinuation false) :=
    ⟨h.setContinuation false, rfl, fun _ => ⟨rfl, absurd rfl⟩, nofun⟩
  exact hstart.readFormAfter hc

/-- What a run does. -/
theorem OneLine.perform (h : OneLine reads p s) (hc : p.Shows c) (commands : List Command) :
    ∃ attempts s' c', s.perform commands c = (attempts, s', c') ∧
      PromptedRun reads p s.source.reads c attempts s' c' := by
  induction commands generalizing s c with
  | nil => exact ⟨[], s, c, rfl, h, hc, .nil, nofun⟩
  | cons command commands ih =>
    cases command with
    | setContinuation b => exact ih (h.setContinuation b) hc
    | readForm =>
      obtain ⟨answer, s₁, c₁, hread, hrun, -⟩ := h.readForm hc
      obtain ⟨more, s', c', hperform, hmore⟩ := ih hrun.stream hrun.shows
      refine ⟨s.attempts c ++ more, s', c', ?_, hrun.trans hmore⟩
      simp only [TokenStream.perform, hread, hperform]

/-- Prompts match what is being read, and nothing is read ahead.

In a run of readings of forms over single lines, before each attempted read one prompt is shown, and
nothing else is; each attempt takes the next read. The prompt is the one for a form that goes on
exactly if tokens of it were collected already, which is so exactly if parentheses are open. When
the next reading gives a form, the read of its last token's line is the last one that was taken, and
that line is used up. -/
theorem perform_prompted {reads : List Read} {p : Prompting} {c : Console}
    (hreads : ∀ text, .line text ∈ reads → '\n' ∉ text.toList.dropLast) (hc : p.Shows c)
    (commands : List Command) :
    ∃ attempts s c', perform commands (ofSource ⟨reads, p⟩) c = (attempts, s, c') ∧
      PromptedReads p c reads attempts c' s.source.reads ∧
      (p.sink c').written = (p.sink c).written ++ shown attempts ∧
      s.source.reads = reads.drop attempts.length ∧
      (∀ a ∈ attempts, a.Fits) ∧
      ∀ form s₁ c₁, s.readForm c' = (.ok (some form), s₁, c₁) → s₁.StopsAfter reads form := by
  obtain ⟨attempts, s, c', hperform, hrun⟩ := (oneLine_ofSource hreads p).perform hc commands
  refine ⟨attempts, s, c', hperform, hrun.prompted, hrun.prompted.written, hrun.prompted.left_eq,
    hrun.fits, fun form s₁ c₁ hread => ?_⟩
  obtain ⟨answer, s₂, c₂, hread', -, hform⟩ := hrun.stream.readForm hrun.shows
  rw [hread'] at hread
  cases hread
  exact hform form rfl

/-- A form is read after one prompt, and the line after it is left. -/
theorem perform_prompted_two_lines :
    (∀ text, Read.line text ∈ [.line "x\n", .line "y\n"] → '\n' ∉ text.toList.dropLast) ∧
    Prompting.flushed.Shows .unlimited ∧
    ∃ attempts s c', perform [.readForm] (ofSource ⟨[.line "x\n", .line "y\n"], .flushed⟩)
        .unlimited = (attempts, s, c') ∧
      c'.prompts.written = "--> ".toUTF8 ∧ s.source.reads = [.line "y\n"] := by
  have hreads : ∀ text, Read.line text ∈ [.line "x\n", .line "y\n"] →
      '\n' ∉ text.toList.dropLast := by
    simp
  have hc : Prompting.flushed.Shows .unlimited := ⟨by decide, rfl, rfl⟩
  obtain ⟨attempts, s, c', hperform, -, hwritten, hleft, -, -⟩ :=
    perform_prompted hreads hc [.readForm]
  let s₀ : TokenStream := ofSource ⟨[.line "x\n", .line "y\n"], .flushed⟩
  let s₁ : TokenStream :=
    ⟨⟨[.line "y\n"], .flushed⟩, ['x', '\n'], 1, ['\n'], 1, false, false⟩
  have hasks : s₀.Asks := ⟨rfl, rfl⟩
  obtain ⟨c₁, hask, -⟩ := hc.ask s₀.prompt
  -- The name is found on the first line, and then its line end.
  have hquiet : s₀.quiet.next .unlimited =
      (.ok (some ⟨.atom "x", 1, 1⟩), s₁.quiet, .unlimited) := by
    rfl
  have hname : s₀.next .unlimited = (.ok (some ⟨.atom "x", 1, 1⟩), s₁, c₁) := by
    rw [next_of_shown hasks hask .unlimited, hquiet]
    rfl
  have hnewline : s₁.next c₁ =
      (.ok (some ⟨.newline, 1, 2⟩), { s₁ with offset := 2, rest := [] }, c₁) := by
    rfl
  have hattempts : attempts = [⟨[], 0, s₀, .unlimited⟩] := by
    have hall : s₀.attempts .unlimited ++ [] = attempts := congrArg Prod.fst hperform
    rw [List.append_nil] at hall
    refine hall.symm.trans ((attemptsAfter_of_token [] 0 hname).trans ?_)
    have hends : (0 : Int) + (Lexeme.atom "x").nesting ≤ 0 ∧
        [(⟨.atom "x", 1, 1⟩ : Token)] ≠ [] :=
      ⟨Int.le_refl 0, List.cons_ne_nil _ _⟩
    rw [if_neg (by decide), attemptsAfter_of_token _ _ hnewline, if_pos rfl, if_pos hends,
      attempt, if_pos hasks, attempt, if_neg fun h => List.cons_ne_nil _ _ h.1]
    rfl
  rw [hattempts] at hwritten hleft
  exact ⟨hreads, hc, attempts, s, c', hperform, hwritten, hleft⟩

end TokenStream

end PocketLisp
