import Mathlib.Data.List.TakeWhile
import PocketLisp.Token.Scan

/-!
# What scanning a line does

A line is cut into gaps and lexemes. When it ends with a newline, no part of it is unreadable, and
only the newline itself can be its last lexeme.

## Main definitions

- `Starts` — a character that a lexeme can start with

## Main statements

- `starts_of_head_splitGap` — what follows a gap starts a lexeme
- `Lexeme.exists_scan?` — a lexeme is found wherever one can start
- `Lexeme.newline_notMem_text` — no other lexeme holds a newline
-/

namespace PocketLisp

/-- Whether a lexeme can start with the character: it is no white space within a line and starts
no comment. -/
def Starts (c : Char) : Prop := isInlineBlank c = false ∧ c ≠ ';'

variable {c : Char} {cs rest : List Char}

theorem isDelimiter_newline : isDelimiter '\n' = true := by decide

theorem starts_newline : Starts '\n' := by
  constructor <;> decide

/-! ### Gaps -/

theorem head_dropWhile {p : Char → Bool} (h : (cs.dropWhile p).head? = some c) : p c = false := by
  have hne : cs.dropWhile p ≠ [] := by
    intro hnil
    rw [hnil] at h
    cases h
  have hhead := List.head_dropWhile_not p hne
  rw [List.head?_eq_some_head hne] at h
  cases h
  exact hhead

theorem starts_of_head_splitComment (hcs : ∀ d, cs.head? = some d → isInlineBlank d = false)
    (h : (splitComment cs).2.head? = some c) : Starts c := by
  unfold splitComment at h
  split at h
  · -- What follows a comment is the end of the line.
    have hc := head_dropWhile h
    have heq : c = '\n' := by simpa using hc
    rw [heq]
    exact starts_newline
  · next hcomment =>
    refine ⟨hcs c h, ?_⟩
    rintro rfl
    obtain ⟨ds, hds⟩ := List.head?_eq_some_iff.1 h
    exact hcomment ds hds

/-- What follows a gap starts a lexeme. -/
theorem starts_of_head_splitGap (h : (splitGap cs).2.head? = some c) : Starts c :=
  starts_of_head_splitComment (fun _ => head_dropWhile) h

theorem newline_notMem_splitComment : '\n' ∉ (splitComment cs).1 := by
  unfold splitComment
  split
  · intro h
    rcases List.mem_cons.1 h with h | h
    · cases h
    · have := List.mem_takeWhile_imp h
      simp at this
  · exact List.not_mem_nil

/-- A gap stays within its line. -/
theorem newline_notMem_splitGap : '\n' ∉ (splitGap cs).1 := by
  intro h
  rcases List.mem_append.1 h with h | h
  · have := List.mem_takeWhile_imp h
    simp [isInlineBlank] at this
  · exact newline_notMem_splitComment h

/-! ### Lexemes -/

namespace Lexeme

variable {l : Lexeme}

/-- A lexeme is found wherever one can start. -/
theorem exists_scan? (h : Starts c) : ∃ l rest, scan? (c :: cs) = some (l, rest) := by
  obtain ⟨hblank, hcomment⟩ := h
  unfold scan?
  split
  · exact ⟨_, _, rfl⟩
  · exact ⟨_, _, rfl⟩
  · exact ⟨_, _, rfl⟩
  · exact ⟨_, _, rfl⟩
  · next hleft hright hnewline _ =>
    have hc : isDelimiter c = false := by
      have hnewline' : c ≠ '\n' := fun heq => hnewline cs (by rw [heq])
      have hleft' : c ≠ '(' := fun heq => hleft cs (by rw [heq])
      have hright' : c ≠ ')' := fun heq => hright cs (by rw [heq])
      have hblank' : isBlank c = false := by simpa [isInlineBlank, hnewline'] using hblank
      simp [isDelimiter, hblank', hleft', hright', hcomment]
    have hatom : (c :: cs).takeWhile (fun d => !isDelimiter d) =
        c :: cs.takeWhile (fun d => !isDelimiter d) := by simp [hc]
    rw [hatom]
    exact ⟨_, _, rfl⟩

/-- No lexeme but the end of a line holds a newline. -/
theorem newline_notMem_text (h : scan? cs = some (l, rest)) (hl : l ≠ newline) :
    '\n' ∉ l.text.toList := by
  unfold scan? at h
  split at h
  · cases h; decide
  · cases h; decide
  · cases h; exact absurd rfl hl
  · cases h; decide
  · split at h
    · cases h
    · next hatom =>
      cases h
      rw [text, String.toList_ofList, ← hatom]
      intro hmem
      have := List.mem_takeWhile_imp hmem
      simp [isDelimiter_newline] at this

end Lexeme

/-! ### Lines that end with a newline -/

/-- The text is used up, or it ends with a newline. -/
def LineEnded (cs : List Char) : Prop := ∀ c, cs.getLast? = some c → c = '\n'

theorem lineEnded_nil : LineEnded [] := nofun

theorem LineEnded.of_append {ds : List Char} (h : LineEnded (ds ++ cs)) : LineEnded cs := by
  intro c hc
  apply h
  rw [List.getLast?_append, hc]
  rfl

theorem LineEnded.append {ds : List Char} (h : LineEnded cs) (h' : LineEnded ds) :
    LineEnded (cs ++ ds) := by
  intro c hc
  rw [List.getLast?_append, Option.or_eq_some_iff] at hc
  rcases hc with hc | ⟨-, hc⟩
  · exact h' c hc
  · exact h c hc

theorem LineEnded.newline_mem (h : LineEnded cs) (hne : cs ≠ []) : '\n' ∈ cs := by
  have hlast := h _ (List.getLast?_eq_some_getLast hne)
  rw [← hlast]
  exact List.getLast_mem hne

/-- In a line that has not ended a lexeme is found, and what it leaves has ended only if it was the
newline. -/
theorem LineEnded.exists_scan? (h : LineEnded cs) (hne : cs ≠ []) :
    ∃ l rest, Lexeme.scan? (splitGap cs).2 = some (l, rest) ∧ LineEnded rest ∧
      (rest = [] → l = .newline) := by
  have happend := splitGap_append cs
  -- The newline is no part of the gap, so something follows the gap.
  have hstart : (splitGap cs).2 ≠ [] := by
    intro hnil
    rw [hnil, List.append_nil] at happend
    have hmem := h.newline_mem hne
    rw [← happend] at hmem
    exact newline_notMem_splitGap hmem
  obtain ⟨c, ds, hcs⟩ := List.exists_cons_of_ne_nil hstart
  have hhead : (splitGap cs).2.head? = some c := by
    rw [hcs]
    rfl
  obtain ⟨l, rest, hscan⟩ : ∃ l rest, Lexeme.scan? (c :: ds) = some (l, rest) :=
    Lexeme.exists_scan? (starts_of_head_splitGap hhead)
  rw [← hcs] at hscan
  have hended : LineEnded (l.text.toList ++ rest) := by
    rw [Lexeme.text_append_of_scan? hscan]
    rw [← happend] at h
    exact h.of_append
  refine ⟨l, rest, hscan, hended.of_append, ?_⟩
  -- A lexeme that takes all of the line takes the newline.
  rintro rfl
  rw [List.append_nil] at hended
  by_contra hl
  exact Lexeme.newline_notMem_text hscan hl
    (hended.newline_mem (Lexeme.text_ne_nil_of_scan? hscan))

/-- Only where a line is used up no lexeme is found. -/
theorem LineEnded.eq_nil_of_scan? (h : LineEnded cs)
    (hscan : Lexeme.scan? (splitGap cs).2 = none) : cs = [] := by
  by_contra hne
  obtain ⟨l, rest, hscan', -⟩ := h.exists_scan? hne
  rw [hscan] at hscan'
  cases hscan'

end PocketLisp
