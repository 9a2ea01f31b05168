import PocketLisp.Input.Form
import PocketLisp.Proofs.Input.Lines

/-!
# Reading a text

A text is read without prompts and without failures, so what is read of it does not depend on the
console.

## Main definitions

- `TokenStream.Silent` — a stream over a text
- `TokenStream.allForms`, `formsOf` — all forms of a stream, and of a text
- `TokenStream.HandsForms` — a stream hands out some forms whatever the console is

## Main statements

- `TokenStream.Silent.readForm` — a form is read from a text without touching the console
- `handsForms_ofString` — and so are all forms of the text
-/

namespace PocketLisp

namespace TokenStream

variable {s s' : TokenStream} {c c' : Console} {t : Token}

/-- Nothing but lines is left to read, no prompt is shown, and the line in hand ends with a
newline. -/
structure Silent (s : TokenStream) : Prop where
  prompting : s.source.prompting = .silent
  reads : ∀ r ∈ s.source.reads, ∃ text, r = .line text
  ended : LineEnded s.rest

theorem Silent.setContinuation (h : s.Silent) (b : Bool) : (s.setContinuation b).Silent :=
  ⟨h.prompting, h.reads, h.ended⟩

theorem silent_ofString (text : String) : (ofSource (.ofString text .silent)).Silent where
  prompting := rfl
  reads r hr := by
    obtain ⟨line, -, rfl⟩ := List.mem_map.1 hr
    exact ⟨_, rfl⟩
  ended := lineEnded_ofSource _

theorem Silent.read (h : s.Silent) (prompt : String) :
    ∃ text source, (∀ c, s.source.read prompt c = (.ok text, source, c)) ∧
      source.prompting = .silent ∧ ∀ r ∈ source.reads, ∃ text, r = .line text := by
  rcases hreads : s.source.reads with - | ⟨r, reads⟩
  · refine ⟨"", s.source, fun c => ?_, h.prompting, h.reads⟩
    simp only [LineSource.read, h.prompting, Prompting.ask, hreads]
  · have hall := h.reads
    rw [hreads, List.forall_mem_cons] at hall
    obtain ⟨text, rfl⟩ := hall.1
    refine ⟨text, { s.source with reads }, fun c => ?_, h.prompting, hall.2⟩
    simp only [LineSource.read, h.prompting, Prompting.ask, hreads]

theorem Silent.refill (h : s.Silent) :
    ∃ found s', (∀ c, s.refill c = (.ok found, s', c)) ∧ s'.Silent ∧
      (found = true → s'.rest ≠ []) := by
  by_cases hex : s.exhausted
  · exact ⟨false, s, fun c => by rw [TokenStream.refill, if_pos hex], h, nofun⟩
  · obtain ⟨text, source, hread, hprompting, hreads⟩ := h.read s.prompt
    refine ⟨_, _, fun c => by rw [TokenStream.refill, if_neg hex, hread], ?_, ?_⟩
    · exact ⟨hprompting, hreads, lineEnded_completeLine _⟩
    · simp

theorem Silent.cut (h : s.Silent) (hne : s.rest ≠ []) :
    ∃ t s', s.cut = (.ok t, s') ∧ s'.Silent := by
  obtain ⟨t, s', hcut, hended, -⟩ := exists_cut h.ended hne
  have hsource : s'.source = s.source := by
    unfold TokenStream.cut at hcut
    dsimp only at hcut
    split at hcut
    · cases hcut
      rfl
    · cases hcut
  exact ⟨t, s', hcut, by rw [hsource]; exact h.prompting, by rw [hsource]; exact h.reads, hended⟩

/-- A token is read without touching the console. -/
theorem Silent.next (h : s.Silent) :
    ∃ item s', (∀ c, s.next c = (.ok item, s', c)) ∧ s'.Silent := by
  by_cases hrest : s.rest = []
  · have hempty : s.rest.isEmpty = true := by rw [hrest]; rfl
    obtain ⟨found, s₁, hrefill, h₁, hfound⟩ := h.refill
    cases found with
    | false =>
      exact ⟨none, s₁, fun c => by rw [TokenStream.next, if_pos hempty, hrefill], h₁⟩
    | true =>
      obtain ⟨t, s₂, hcut, h₂⟩ := h₁.cut (hfound rfl)
      refine ⟨some t, s₂, fun c => ?_, h₂⟩
      rw [TokenStream.next, if_pos hempty, hrefill]
      dsimp only
      rw [hcut]
      rfl
  · have hempty : ¬ s.rest.isEmpty = true := by simpa using hrest
    obtain ⟨t, s₁, hcut, h₁⟩ := h.cut hrest
    refine ⟨some t, s₁, fun c => ?_, h₁⟩
    rw [TokenStream.next, if_neg hempty, hcut]
    rfl

/-! ### Forms -/

theorem readFormAfter_of_error {f : Failure} (seen : List Token) (depth : Int)
    (h : s.next c = (.error f, s', c')) :
    readFormAfter seen depth s c = (.error f, s', c') := by
  rw [readFormAfter]
  split
  · next h' => rw [h] at h'; cases h'; rfl
  · next h' => rw [h] at h'; cases h'
  · next h' => rw [h] at h'; cases h'

theorem readFormAfter_of_none (seen : List Token) (depth : Int)
    (h : s.next c = (.ok none, s', c')) :
    readFormAfter seen depth s c = (.ok none, s', c') := by
  rw [readFormAfter]
  split
  · next h' => rw [h] at h'; cases h'
  · next h' => rw [h] at h'; cases h'; rfl
  · next h' => rw [h] at h'; cases h'

theorem readFormAfter_of_token (seen : List Token) (depth : Int)
    (h : s.next c = (.ok (some t), s', c')) :
    readFormAfter seen depth s c =
      if t.lexeme = .newline then
        if depth ≤ 0 ∧ seen ≠ [] then (.ok (some (Form.ofTokens seen.reverse)), s', c')
        else readFormAfter seen depth (s'.setContinuation (!seen.isEmpty)) c'
      else readFormAfter (t :: seen) (depth + t.lexeme.nesting) s' c' := by
  rw [readFormAfter]
  split
  · next h' => rw [h] at h'; cases h'
  · next h' => rw [h] at h'; cases h'
  · next h' => rw [h] at h'; cases h'; rfl

theorem Silent.readFormAfter (h : s.Silent) (seen : List Token) (depth : Int) :
    ∃ a s', (∀ c, readFormAfter seen depth s c = (.ok a, s', c)) ∧ s'.Silent := by
  -- Each token leaves less to read.
  induction hn : s.remaining using Nat.strongRecOn generalizing s seen depth with
  | ind n ih =>
    subst hn
    obtain ⟨item, s₁, hnext, h₁⟩ := h.next
    cases item with
    | none => exact ⟨none, s₁, fun c => readFormAfter_of_none seen depth (hnext c), h₁⟩
    | some t =>
      have hlt : s₁.remaining < s.remaining := remaining_lt_of_next (hnext .unlimited)
      have hstep (c : Console) := readFormAfter_of_token seen depth (hnext c)
      by_cases ht : t.lexeme = .newline
      · simp only [if_pos ht] at hstep
        by_cases hends : depth ≤ 0 ∧ seen ≠ []
        · simp only [if_pos hends] at hstep
          exact ⟨_, s₁, hstep, h₁⟩
        · simp only [if_neg hends] at hstep
          obtain ⟨a, s₂, hread, h₂⟩ := ih _ (by simpa using hlt) (h₁.setContinuation _) _ _ rfl
          exact ⟨a, s₂, fun c => (hstep c).trans (hread c), h₂⟩
      · simp only [if_neg ht] at hstep
        obtain ⟨a, s₂, hread, h₂⟩ := ih _ hlt h₁ _ _ rfl
        exact ⟨a, s₂, fun c => (hstep c).trans (hread c), h₂⟩

/-- A form is read without touching the console, and reading does not fail. -/
theorem Silent.readForm (h : s.Silent) :
    ∃ a s', (∀ c, s.readForm c = (.ok a, s', c)) ∧ s'.Silent :=
  (h.setContinuation false).readFormAfter [] 0

/-- All forms of a stream up to its end or a failure, requests to stop included. -/
def allForms (s : TokenStream) : List Form :=
  match _h : s.readForm .unlimited with
  | (.error _, _, _) | (.ok none, _, _) => []
  | (.ok (some form), s', _) => form :: allForms s'
termination_by s.remaining
decreasing_by exact remaining_lt_of_readForm _h

theorem allForms_of_none (h : s.readForm .unlimited = (.ok none, s', c)) : s.allForms = [] := by
  rw [allForms]
  split
  · rfl
  · rfl
  · next h' => rw [h] at h'; cases h'

theorem allForms_of_form {form : Form} (h : s.readForm .unlimited = (.ok (some form), s', c)) :
    s.allForms = form :: s'.allForms := by
  rw [allForms]
  split
  · next h' => rw [h] at h'; cases h'
  · next h' => rw [h] at h'; cases h'
  · next h' => rw [h] at h'; cases h'; rfl

/-- The stream hands out these forms and then ends, without touching the console. -/
inductive HandsForms : TokenStream → List Form → Prop
  | done {s s' : TokenStream} : (∀ c, s.readForm c = (.ok none, s', c)) → HandsForms s []
  | form {s s' : TokenStream} {form : Form} {forms : List Form} :
      (∀ c, s.readForm c = (.ok (some form), s', c)) → HandsForms s' forms →
        HandsForms s (form :: forms)

theorem Silent.handsForms (h : s.Silent) : s.HandsForms s.allForms := by
  induction hn : s.remaining using Nat.strongRecOn generalizing s with
  | ind n ih =>
    subst hn
    obtain ⟨a, s', hread, h'⟩ := h.readForm
    cases a with
    | none =>
      rw [allForms_of_none (hread _)]
      exact .done hread
    | some form =>
      rw [allForms_of_form (hread _)]
      exact .form hread (ih _ (remaining_lt_of_readForm (hread .unlimited)) h' rfl)

end TokenStream

/-- The forms of a text, requests to stop included. -/
def formsOf (text : String) : List Form :=
  TokenStream.allForms (.ofSource (.ofString text .silent))

theorem handsForms_ofString (text : String) :
    (TokenStream.ofSource (.ofString text .silent)).HandsForms (formsOf text) :=
  (TokenStream.silent_ofString text).handsForms

end PocketLisp
