import PocketLisp.Proofs.Token.Scan

/-!
# All lexemes of a text

## Main definitions

- `Lexeme.scanAll` — the lexemes of a text
- `Delimited` — a text that an atom in front of it does not run into

## Main statements

- `Lexeme.scanAll_blank` — white space within a line gives no lexeme
- `Lexeme.scanAll_leftParen`, `Lexeme.scanAll_rightParen`, `Lexeme.scanAll_quote`,
  `Lexeme.scanAll_newline`, `Lexeme.scanAll_atom` — each lexeme is read back from its spelling
-/

namespace PocketLisp

/-- A text that an atom in front of it does not run into. -/
def Delimited (cs : List Char) : Prop := ∀ c, cs.head? = some c → isDelimiter c = true

namespace Lexeme

/-- The lexemes of a text, up to where it cannot be read. -/
def scanAll (cs : List Char) : List Lexeme :=
  match _h : scan? (splitGap cs).2 with
  | none => []
  | some (l, rest) => l :: scanAll rest
termination_by cs.length
decreasing_by
  have hlt := length_lt_of_scan? _h
  have hle := length_splitGap_le cs
  omega

variable {c : Char} {cs rest text : List Char} {l : Lexeme}

theorem scanAll_eq_nil (h : scan? (splitGap cs).2 = none) : scanAll cs = [] := by
  rw [scanAll]
  split
  · rfl
  · next h' => rw [h] at h'; cases h'

theorem scanAll_eq_cons (h : scan? (splitGap cs).2 = some (l, rest)) :
    scanAll cs = l :: scanAll rest := by
  rw [scanAll]
  split
  · next h' => rw [h] at h'; cases h'
  · next h' =>
    rw [h] at h'
    cases h'
    rfl

theorem scanAll_nil : scanAll [] = [] := scanAll_eq_nil rfl

/-! ### Gaps -/

theorem splitGap_of_starts (h : Starts c) : splitGap (c :: cs) = ([], c :: cs) := by
  obtain ⟨hblank, hcomment⟩ := h
  have htake : (c :: cs).takeWhile isInlineBlank = [] :=
    List.takeWhile_cons_of_neg (by simp [hblank])
  have hdrop : (c :: cs).dropWhile isInlineBlank = c :: cs :=
    List.dropWhile_cons_of_neg (by simp [hblank])
  have hsplit : splitComment (c :: cs) = ([], c :: cs) := by
    unfold splitComment
    split
    · next heq =>
      cases heq
      exact absurd rfl hcomment
    · rfl
  rw [splitGap, hdrop, hsplit, htake]
  rfl

theorem scanAll_of_starts (hc : Starts c) (h : scan? (c :: cs) = some (l, rest)) :
    scanAll (c :: cs) = l :: scanAll rest := by
  apply scanAll_eq_cons
  rw [splitGap_of_starts hc]
  exact h

/-- White space within a line gives no lexeme. -/
theorem scanAll_blank (h : isInlineBlank c = true) : scanAll (c :: cs) = scanAll cs := by
  have hgap : (splitGap (c :: cs)).2 = (splitGap cs).2 := by
    rw [splitGap, splitGap, List.dropWhile_cons_of_pos h]
  cases hscan : scan? (splitGap cs).2 with
  | none => rw [scanAll_eq_nil hscan, scanAll_eq_nil (by rw [hgap, hscan])]
  | some lr => rw [scanAll_eq_cons hscan, scanAll_eq_cons (by rw [hgap, hscan])]

/-! ### Lexemes and their spellings -/

theorem scanAll_leftParen : scanAll ('(' :: cs) = leftParen :: scanAll cs :=
  scanAll_of_starts ⟨by decide, by decide⟩ rfl

theorem scanAll_rightParen : scanAll (')' :: cs) = rightParen :: scanAll cs :=
  scanAll_of_starts ⟨by decide, by decide⟩ rfl

theorem scanAll_quote : scanAll ('\x27' :: cs) = quote :: scanAll cs :=
  scanAll_of_starts ⟨by decide, by decide⟩ rfl

theorem scanAll_newline : scanAll ('\n' :: cs) = newline :: scanAll cs :=
  scanAll_of_starts starts_newline rfl

/-- The spelling of an atom: it is not empty, holds no delimiter and starts with no quote mark. -/
structure IsAtom (text : List Char) : Prop where
  nonempty : text ≠ []
  solid : ∀ c ∈ text, isDelimiter c = false
  unquoted : text.head? ≠ some '\x27'

theorem IsAtom.of_all (h : (!text.isEmpty && text.all (fun c => !isDelimiter c) &&
    text.head? != some '\x27') = true) : IsAtom text := by
  simp only [Bool.and_eq_true, Bool.not_eq_true', List.isEmpty_eq_false_iff, List.all_eq_true,
    bne_iff_ne] at h
  exact ⟨h.1.1, h.1.2, h.2⟩

theorem starts_of_isDelimiter (h : isDelimiter c = false) : Starts c := by
  simp only [isDelimiter, Bool.or_eq_false_iff, beq_eq_false_iff_ne] at h
  obtain ⟨⟨⟨hblank, -⟩, -⟩, hcomment⟩ := h
  exact ⟨by simp [isInlineBlank, hblank], hcomment⟩

theorem takeWhile_of_delimited (h : Delimited cs) :
    cs.takeWhile (fun d => !isDelimiter d) = [] ∧ cs.dropWhile (fun d => !isDelimiter d) = cs := by
  cases cs with
  | nil => exact ⟨rfl, rfl⟩
  | cons c cs =>
    have hc := h c rfl
    exact ⟨List.takeWhile_cons_of_neg (by simp [hc]), List.dropWhile_cons_of_neg (by simp [hc])⟩

theorem scan?_atom (h : IsAtom text) (hcs : Delimited cs) :
    scan? (text ++ cs) = some (atom (String.ofList text), cs) := by
  obtain ⟨c, text, rfl⟩ := List.exists_cons_of_ne_nil h.nonempty
  obtain ⟨hnil, hall⟩ := takeWhile_of_delimited hcs
  have htake : (c :: text ++ cs).takeWhile (fun d => !isDelimiter d) = c :: text := by
    rw [List.takeWhile_append_of_pos (by simpa using h.solid), hnil, List.append_nil]
  have hdrop : (c :: text ++ cs).dropWhile (fun d => !isDelimiter d) = cs := by
    rw [List.dropWhile_append_of_pos (by simpa using h.solid), hall]
  have hc : isDelimiter c = false := h.solid c List.mem_cons_self
  unfold scan?
  split
  · next heq => cases heq; exact absurd hc (by decide)
  · next heq => cases heq; exact absurd hc (by decide)
  · next heq => cases heq; exact absurd hc (by decide)
  · next heq => cases heq; exact absurd rfl h.unquoted
  · rw [htake, hdrop]

theorem scanAll_atom (h : IsAtom text) (hcs : Delimited cs) :
    scanAll (text ++ cs) = atom (String.ofList text) :: scanAll cs := by
  have hscan := scan?_atom h hcs
  obtain ⟨c, text, rfl⟩ := List.exists_cons_of_ne_nil h.nonempty
  exact scanAll_of_starts (starts_of_isDelimiter (h.solid c List.mem_cons_self)) hscan

end Lexeme

end PocketLisp
