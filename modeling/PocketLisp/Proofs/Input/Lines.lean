import PocketLisp.Input.TokenStream
import PocketLisp.Proofs.Token.Scan

/-!
# The line in hand

A stream takes lines that end with a newline, so a token is found in every line that is not used
up, and a line is used up exactly by its newline.

## Main statements

- `TokenStream.exists_cut` — a line that is not used up gives a token
- `TokenStream.next_cases` — a call leaves a line that is used up or ends with a newline, and it
  fails only when a read of the source fails
-/

namespace PocketLisp

namespace TokenStream

variable {s s' : TokenStream} {c c' : Console} {t : Token} {f : Failure}

theorem lineEnded_completeLine (line : List Char) : LineEnded (completeLine line) := by
  unfold completeLine
  split
  · exact lineEnded_nil
  · next d hlast =>
    split
    · next hd =>
      intro e he
      rw [hlast] at he
      cases he
      simpa using hd
    · intro e he
      rw [List.getLast?_concat] at he
      cases he
      rfl

/-- A line end is added to what is not empty and does not end with one. -/
theorem completeLine_eq (line : List Char) :
    completeLine line =
      if line = [] ∨ line.getLast? = some '\n' then line else line ++ ['\n'] := by
  unfold completeLine
  split
  · next hlast =>
    cases List.getLast?_eq_none_iff.1 hlast
    rfl
  · next d hlast =>
    have hne : line ≠ [] := by
      rintro rfl
      cases hlast
    simp [hlast, hne]

/-- A line with its line end is complete. -/
theorem completeLine_of_lineEnded {cs : List Char} (h : LineEnded cs) : completeLine cs = cs := by
  unfold completeLine
  split
  · next hlast => exact (List.getLast?_eq_none_iff.1 hlast).symm
  · next d hlast =>
    rw [h d hlast]
    rfl

theorem lineEnded_ofSource (source : LineSource) : LineEnded (ofSource source).rest :=
  lineEnded_nil

/-- A line that is not used up gives a token, and only its newline uses it up. -/
theorem exists_cut (h : LineEnded s.rest) (hne : s.rest ≠ []) :
    ∃ t s', s.cut = (.ok t, s') ∧ LineEnded s'.rest ∧ (s'.rest = [] → t.lexeme = .newline) := by
  obtain ⟨l, rest, hscan, hended, hlast⟩ := h.exists_scan? hne
  unfold cut
  simp only [hscan]
  exact ⟨_, _, rfl, hended, hlast⟩

theorem refill_cases (s : TokenStream) (c : Console) :
    (∃ f s' c', s.refill c = (.error f, s', c') ∧ s'.rest = s.rest ∧
      ∃ source, s.source.read s.prompt c = (.error f, source, c')) ∨
    (∃ s' c', s.refill c = (.ok false, s', c') ∧ (s'.rest = s.rest ∨ s'.rest = [])) ∨
    ∃ s' c', s.refill c = (.ok true, s', c') ∧ LineEnded s'.rest ∧ s'.rest ≠ [] := by
  unfold refill
  split
  · exact .inr (.inl ⟨_, _, rfl, .inl rfl⟩)
  · rcases hread : s.source.read s.prompt c with ⟨f | text, source, c'⟩
    · exact .inl ⟨f, _, _, rfl, rfl, source, rfl⟩
    · right
      dsimp only
      by_cases hline : completeLine text.toList = []
      · left
        rw [hline]
        exact ⟨_, _, rfl, .inr rfl⟩
      · right
        have hempty : (completeLine text.toList).isEmpty = false := by simpa using hline
        rw [hempty]
        exact ⟨_, _, rfl, lineEnded_completeLine _, hline⟩

/-- What a call hands out, and what it leaves of the line. -/
theorem next_cases {item : Except Failure (Option Token)} (h : LineEnded s.rest)
    (hnext : s.next c = (item, s', c')) :
    LineEnded s'.rest ∧
      ((∃ t, item = .ok (some t) ∧ (s'.rest = [] → t.lexeme = .newline)) ∨
        (item = .ok none ∧ s.rest = []) ∨
        ∃ f source, item = .error f ∧ s.rest = [] ∧
          s.source.read s.prompt c = (.error f, source, c')) := by
  unfold next at hnext
  by_cases hrest : s.rest = []
  · rw [if_pos (by simpa using hrest)] at hnext
    rcases s.refill_cases c with ⟨f, s₁, c₁, heq, hs₁, source, hread⟩ | ⟨s₁, c₁, heq, hs₁⟩ |
      ⟨s₁, c₁, heq, hended, hne⟩
    · rw [heq] at hnext
      cases hnext
      rw [hs₁, hrest]
      exact ⟨lineEnded_nil, .inr (.inr ⟨f, source, rfl, rfl, hread⟩)⟩
    · rw [heq] at hnext
      cases hnext
      have hs' : s'.rest = [] := hs₁.elim (·.trans hrest) id
      rw [hs']
      exact ⟨lineEnded_nil, .inr (.inl ⟨rfl, hrest⟩)⟩
    · obtain ⟨t, s₂, hcut, hended', hlast⟩ := exists_cut hended hne
      simp only [heq, hcut] at hnext
      cases hnext
      exact ⟨hended', .inl ⟨t, rfl, hlast⟩⟩
  · rw [if_neg (by simpa using hrest)] at hnext
    obtain ⟨t, s₂, hcut, hended, hlast⟩ := exists_cut h hrest
    rw [hcut] at hnext
    cases hnext
    exact ⟨hended, .inl ⟨t, rfl, hlast⟩⟩

/-- The token that uses a line up is a newline. -/
theorem lexeme_of_next (h : LineEnded s.rest) (hnext : s.next c = (.ok (some t), s', c'))
    (hrest : s'.rest = []) : t.lexeme = .newline := by
  rcases (next_cases h hnext).2 with ⟨u, hu, hlast⟩ | ⟨hnone, -⟩ | ⟨f, source, herror, -⟩
  · cases hu
    exact hlast hrest
  · cases hnone
  · cases herror

/-- A call hands out no token only when the line is used up. -/
theorem rest_of_next {item : Except Failure (Option Token)} (h : LineEnded s.rest)
    (hnext : s.next c = (item, s', c')) (hitem : ∀ t, item ≠ .ok (some t)) : s.rest = [] := by
  rcases (next_cases h hnext).2 with ⟨t, ht, -⟩ | ⟨-, hrest⟩ | ⟨f, source, -, hrest, -⟩
  · exact absurd ht (hitem t)
  · exact hrest
  · exact hrest

end TokenStream

end PocketLisp
