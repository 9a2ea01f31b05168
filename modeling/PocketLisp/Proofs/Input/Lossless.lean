import PocketLisp.Proofs.Input.Tokenize
import PocketLisp.Proofs.Token.Pieces

/-!
# Tokenizing loses nothing

A text, with a line end where its last line lacks one, is its tokens with the gaps in front of them,
and each token tells its place in the text.

## Main definitions

- `IsLine` — a line with its line end

## Main statements

- `flatten_completeLines` — the lines of a text with their line ends are the text
- `exists_pieces_line`, `exists_pieces_lines` — the tokens of lines cut these lines
- `tokenize_isCut` — the tokens of a text cut it, and nothing else does
-/

namespace PocketLisp

open TokenStream (completeLine completeLine_ne_nil completeLine_cons)

/-! ### Lines -/

/-- A line with its line end. -/
def IsLine (cs : List Char) : Prop := ∃ ds, cs = ds ++ ['\n'] ∧ '\n' ∉ ds

variable {c : Char} {cs before : List Char} {lines : List (List Char)}

theorem IsLine.cons (hc : c ≠ '\n') (h : IsLine cs) : IsLine (c :: cs) := by
  obtain ⟨ds, rfl, hds⟩ := h
  exact ⟨c :: ds, rfl, List.not_mem_cons_of_ne_of_not_mem hc.symm hds⟩

theorem IsLine.lineEnded (h : IsLine cs) : LineEnded cs := by
  obtain ⟨ds, rfl, -⟩ := h
  intro c hc
  rw [List.getLast?_concat] at hc
  cases hc
  rfl

theorem IsLine.ne_nil (h : IsLine cs) : cs ≠ [] := by
  obtain ⟨ds, rfl, -⟩ := h
  exact List.append_ne_nil_of_right_ne_nil _ (List.cons_ne_nil _ _)

/-- After a line the next one starts. -/
theorem IsLine.places (h : IsLine cs) : lineAfter (before ++ cs) = lineAfter before + 1 ∧
    columnAfter (before ++ cs) = 1 := by
  obtain ⟨ds, rfl, hds⟩ := h
  rw [← List.append_assoc, lineAfter_newline, columnAfter_newline, lineAfter_append hds]
  exact ⟨rfl, rfl⟩

/-- Each piece of a text is a line once it has its line end. -/
theorem isLine_completeLine {line : List Char} (h : line ∈ splitAfter '\n' cs) :
    IsLine (completeLine line) := by
  induction cs generalizing line with
  | nil => cases h
  | cons c cs ih =>
    by_cases hc : c = '\n'
    · subst hc
      rcases List.mem_cons.1 h with rfl | h
      · exact ⟨[], rfl, List.not_mem_nil⟩
      · exact ih h
    · cases hsplit : splitAfter '\n' cs with
      | nil =>
        rw [splitAfter_eq_nil hsplit] at h
        have hline : line = [c] := by simpa [splitAfter, hc] using h
        subst hline
        exact ⟨[c], by simp [completeLine, hc], by simpa using Ne.symm hc⟩
      | cons first lines =>
        rw [splitAfter_cons hc hsplit] at h
        have hfirst : first ∈ splitAfter '\n' cs := by simp [hsplit]
        rcases List.mem_cons.1 h with rfl | h
        · rw [completeLine_cons (ne_nil_of_mem_splitAfter hfirst)]
          exact (ih hfirst).cons hc
        · exact ih (by simp [hsplit, h])

/-- The lines of a text, each with a line end, are the text with a line end. -/
theorem flatten_completeLines (cs : List Char) :
    ((splitAfter '\n' cs).map completeLine).flatten = completeLine cs := by
  induction cs with
  | nil => rfl
  | cons c cs ih =>
    by_cases hc : c = '\n'
    · subst hc
      rw [splitAfter_newline, List.map_cons, List.flatten_cons, ih]
      by_cases hcs : cs = []
      · subst hcs
        rfl
      · rw [completeLine_cons hcs]
        rfl
    · cases hsplit : splitAfter '\n' cs with
      | nil =>
        rw [splitAfter_eq_nil hsplit]
        simp [splitAfter, hc]
      | cons first lines =>
        have hfirst : first ≠ [] := ne_nil_of_mem_splitAfter (by rw [hsplit]; simp)
        have hcs : cs ≠ [] := by
          rintro rfl
          cases hsplit
        rw [hsplit, List.map_cons, List.flatten_cons] at ih
        rw [splitAfter_cons hc hsplit, List.map_cons, List.flatten_cons, completeLine_cons hfirst,
          completeLine_cons hcs, ← ih]
        rfl

/-! ### The tokens of a line -/

/-- A lexeme is the end of its line, or it leaves a line. -/
theorem IsLine.rest {rest : List Char} {l : Lexeme} (h : IsLine cs)
    (hscan : Lexeme.scan? (splitGap cs).2 = some (l, rest)) :
    (l = .newline ∧ rest = []) ∨ ('\n' ∉ l.text.toList ∧ IsLine rest) := by
  obtain ⟨ds, hcs, hds⟩ := h
  have hcut : (splitGap cs).1 ++ (l.text.toList ++ rest) = ds ++ ['\n'] := by
    rw [Lexeme.text_append_of_scan? hscan, splitGap_append, hcs]
  rcases List.eq_nil_or_concat' rest with rfl | ⟨es, e, rfl⟩
  · left
    refine ⟨?_, rfl⟩
    by_contra hl
    rw [List.append_nil] at hcut
    have hmem : '\n' ∈ (splitGap cs).1 ++ l.text.toList := by
      rw [hcut]
      exact List.mem_append_right _ (List.mem_singleton_self _)
    rcases List.mem_append.1 hmem with hmem | hmem
    · exact newline_notMem_splitGap hmem
    · exact Lexeme.newline_notMem_text hscan hl hmem
  · right
    rw [← List.append_assoc, ← List.append_assoc] at hcut
    obtain ⟨hbefore, he⟩ := List.append_inj' hcut rfl
    cases he
    rw [← hbefore, List.append_assoc, List.mem_append, List.mem_append, not_or, not_or] at hds
    exact ⟨hds.2.1, es, rfl, hds.2.2⟩

/-- The tokens of the rest of a line, in whose place it stands, cut it. -/
theorem exists_pieces_line {number offset : Nat} (hcs : IsLine cs)
    (hline : lineAfter before = number) (hcolumn : columnAfter before = offset + 1) :
    ∃ ps : List Piece, ps.map Piece.token = tokensOfLine number offset cs ∧
      ps.flatMap Piece.chars = cs ∧ AllFit before ps := by
  fun_induction tokensOfLine number offset cs generalizing before with
  | case1 offset cs hscan =>
    obtain ⟨l, rest, hscan', -⟩ := hcs.lineEnded.exists_scan? hcs.ne_nil
    rw [hscan] at hscan'
    cases hscan'
  | case2 offset cs l rest hscan =>
    rename_i ih
    have hcut : (splitGap cs).1 ++ (l.text.toList ++ rest) = cs := by
      rw [Lexeme.text_append_of_scan? hscan, splitGap_append]
    have hgapLine := hline
    rw [← lineAfter_append newline_notMem_splitGap] at hgapLine
    have hgapColumn : columnAfter (before ++ (splitGap cs).1) =
        offset + (splitGap cs).1.length + 1 := by
      rw [columnAfter_append newline_notMem_splitGap, hcolumn]
      omega
    rcases hcs.rest hscan with ⟨rfl, rfl⟩ | ⟨htext, hrest⟩
    · refine ⟨[⟨(splitGap cs).1, ⟨.newline, number, offset + (splitGap cs).1.length + 1⟩⟩], ?_, ?_,
        Piece.fits_of_scan? hscan (absurd rfl) hgapLine hgapColumn, trivial⟩
      · rw [tokensOfLine_nil]
        rfl
      · rw [List.append_nil] at hcut
        rw [List.flatMap_cons, List.flatMap_nil, List.append_nil]
        exact hcut
    · have hline' : lineAfter (before ++ (splitGap cs).1 ++ l.text.toList) = number := by
        rw [lineAfter_append htext, hgapLine]
      have hcolumn' : columnAfter (before ++ (splitGap cs).1 ++ l.text.toList) =
          offset + (splitGap cs).1.length + l.text.length + 1 := by
        rw [columnAfter_append htext, hgapColumn, String.length_toList]
        omega
      obtain ⟨ps, htokens, hchars, hfit⟩ := ih hrest hline' hcolumn'
      refine ⟨⟨(splitGap cs).1, ⟨l, number, offset + (splitGap cs).1.length + 1⟩⟩ :: ps, ?_, ?_,
        ?_, ?_⟩
      · rw [List.map_cons, htokens]
      · rw [List.flatMap_cons, hchars, Piece.chars, List.append_assoc]
        exact hcut
      · rw [hchars]
        exact Piece.fits_of_scan? hscan (fun _ => hrest.ne_nil) hgapLine hgapColumn
      · rw [Piece.chars, ← List.append_assoc]
        exact hfit

/-- The tokens of lines, in whose place they stand, cut them. -/
theorem exists_pieces_lines {number : Nat} (hlines : ∀ line ∈ lines, IsLine line)
    (hline : lineAfter before = number) (hcolumn : columnAfter before = 1) :
    ∃ ps : List Piece, ps.map Piece.token = tokensOfLines number lines ∧
      ps.flatMap Piece.chars = lines.flatten ∧ AllFit before ps := by
  induction lines generalizing before number with
  | nil => exact ⟨[], rfl, rfl, trivial⟩
  | cons line lines ih =>
    obtain ⟨hfirst, hrest⟩ := List.forall_mem_cons.1 hlines
    obtain ⟨ps, htokens, hchars, hfit⟩ := exists_pieces_line hfirst hline hcolumn
    obtain ⟨hline', hcolumn'⟩ : lineAfter (before ++ line) = number + 1 ∧
        columnAfter (before ++ line) = 1 := hline ▸ hfirst.places
    obtain ⟨qs, htokens', hchars', hfit'⟩ := ih hrest hline' hcolumn'
    refine ⟨ps ++ qs, ?_, ?_, hfit.append ?_⟩
    · rw [List.map_append, htokens, htokens']
      rfl
    · rw [List.flatMap_append, hchars, hchars', List.flatten_cons]
    · rw [hchars]
      exact hfit'

/-! ### The tokens of a text -/

/-- Tokenizing a text loses nothing: with a line end where the last line lacks one, the text is its
tokens with gaps in front of them, every atom is as long as possible, and every token tells its
place. There is no other way to cut the text. -/
theorem tokenize_isCut (text : String) :
    let ended := if text.toList = [] ∨ text.toList.getLast? = some '\n' then text.toList
      else text.toList ++ ['\n']
    ∃ ps : List Piece, tokenize text = .ok (ps.map Piece.token) ∧
      IsCut ended ps ∧ ∀ qs, IsCut ended qs → qs = ps := by
  intro ended
  have hended : completeLine text.toList = ended := TokenStream.completeLine_eq text.toList
  have hlines : ∀ line ∈ (splitAfter '\n' text.toList).map completeLine, IsLine line := by
    intro line h
    obtain ⟨piece, hpiece, rfl⟩ := List.mem_map.1 h
    exact isLine_completeLine hpiece
  obtain ⟨ps, htokens, hchars, hfit⟩ : ∃ ps : List Piece,
      ps.map Piece.token =
        tokensOfLines 1 ((splitAfter '\n' text.toList).map completeLine) ∧
      ps.flatMap Piece.chars = ((splitAfter '\n' text.toList).map completeLine).flatten ∧
      AllFit [] ps := exists_pieces_lines hlines rfl rfl
  have hcut : IsCut ended ps := by
    rw [← hended, ← flatten_completeLines, ← hchars]
    exact hfit.isCut
  exact ⟨ps, by rw [tokenize_eq, htokens], hcut, fun qs hqs => hqs.unique hcut⟩

end PocketLisp
