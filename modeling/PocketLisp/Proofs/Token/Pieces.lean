import Mathlib.Data.List.DropRight
import PocketLisp.Proofs.Token.Lexemes

/-!
# Texts cut into tokens and gaps

A text is its tokens with gaps in front of them. The token that comes next, and the gap in front of
it, are determined by what is left of the text, and the place of a token by what comes before it.

## Main definitions

- `lineAfter`, `columnAfter` — the place that comes after a text
- `IsGap` — what may stand in front of a token
- `Piece` — a token with the gap in front of it
- `Piece.Fits` — a piece between the text before it and the text after it
- `IsCut` — a text cut into pieces that fit

## Main statements

- `Piece.Fits.splitGap_eq`, `Piece.Fits.scan?_eq` — a piece that fits is what scanning finds
- `IsCut.unique` — there is only one way to cut a text
- `LineEnded.scanAll_append` — what comes after a newline does not change the lexemes before it
-/

namespace PocketLisp

/-! ### Places -/

/-- The line of what comes after the text `before`. -/
def lineAfter (before : List Char) : Nat := before.count '\n' + 1

/-- The column of what comes after the text `before`: only the last line counts. -/
def columnAfter (before : List Char) : Nat := (before.rtakeWhile (· != '\n')).length + 1

section

variable {before xs : List Char}

theorem lineAfter_append (h : '\n' ∉ xs) : lineAfter (before ++ xs) = lineAfter before := by
  rw [lineAfter, lineAfter, List.count_append, List.count_eq_zero.2 h, Nat.add_zero]

theorem columnAfter_append (h : '\n' ∉ xs) :
    columnAfter (before ++ xs) = columnAfter before + xs.length := by
  have hkept : ∀ c ∈ xs.reverse, (c != '\n') = true := by
    intro c hc
    rw [bne_iff_ne]
    rintro rfl
    exact h (List.mem_reverse.1 hc)
  rw [columnAfter, columnAfter, List.rtakeWhile, List.rtakeWhile, List.reverse_append,
    List.takeWhile_append_of_pos hkept]
  simp only [List.length_reverse, List.length_append]
  omega

theorem lineAfter_newline : lineAfter (before ++ ['\n']) = lineAfter before + 1 := by
  simp [lineAfter]

theorem columnAfter_newline : columnAfter (before ++ ['\n']) = 1 := by
  rw [columnAfter, List.rtakeWhile_concat_neg _ _ _ (by decide)]
  rfl

end

/-! ### Gaps -/

/-- What may stand in front of the lexeme `next`: white space within the line, and in front of the
end of the line perhaps a comment. -/
def IsGap (gap : List Char) (next : Lexeme) : Prop :=
  ∃ blanks comment, gap = blanks ++ comment ∧ (∀ c ∈ blanks, isInlineBlank c = true) ∧
    (comment = [] ∨ next = .newline ∧ ∃ remark, comment = ';' :: remark ∧ '\n' ∉ remark)

variable {cs gap rest : List Char} {l : Lexeme}

theorem splitGap_append_of_blank {blanks : List Char} (h : ∀ c ∈ blanks, isInlineBlank c = true) :
    splitGap (blanks ++ cs) = (blanks ++ (splitGap cs).1, (splitGap cs).2) := by
  rw [splitGap, splitGap, List.takeWhile_append_of_pos h, List.dropWhile_append_of_pos h]
  simp only [List.append_assoc]

theorem splitGap_comment {remark : List Char} (h : '\n' ∉ remark) :
    splitGap (';' :: (remark ++ '\n' :: cs)) = (';' :: remark, '\n' :: cs) := by
  have hremark : ∀ c ∈ remark, (c != '\n') = true := by
    intro c hc
    rw [bne_iff_ne]
    rintro rfl
    exact h hc
  have htake : (remark ++ '\n' :: cs).takeWhile (· != '\n') = remark := by
    rw [List.takeWhile_append_of_pos hremark, List.takeWhile_cons_of_neg (by decide),
      List.append_nil]
  have hdrop : (remark ++ '\n' :: cs).dropWhile (· != '\n') = '\n' :: cs := by
    rw [List.dropWhile_append_of_pos hremark, List.dropWhile_cons_of_neg (by decide)]
  have hblank : ¬ isInlineBlank ';' = true := by decide
  rw [splitGap, List.takeWhile_cons_of_neg hblank, List.dropWhile_cons_of_neg hblank]
  simp only [splitComment, htake, hdrop, List.nil_append]

theorem splitGap_of_head (h : ∀ c, cs.head? = some c → Starts c) : splitGap cs = ([], cs) := by
  cases cs with
  | nil => rfl
  | cons c cs => exact Lexeme.splitGap_of_starts (h c rfl)

/-- A gap is all that is skipped in front of its lexeme. -/
theorem IsGap.splitGap_eq (hgap : IsGap gap l)
    (hstarts : ∀ c, (l.text.toList ++ rest).head? = some c → Starts c) :
    splitGap (gap ++ (l.text.toList ++ rest)) = (gap, l.text.toList ++ rest) := by
  obtain ⟨blanks, comment, rfl, hblanks, hcomment⟩ := hgap
  rw [List.append_assoc, splitGap_append_of_blank hblanks]
  rcases hcomment with rfl | ⟨rfl, remark, rfl, hremark⟩
  · rw [List.nil_append, splitGap_of_head hstarts]
  · have hsplit : splitGap (';' :: remark ++ (Lexeme.newline.text.toList ++ rest)) =
        (';' :: remark, '\n' :: rest) := splitGap_comment hremark
    rw [hsplit]
    rfl

/-- What is skipped as a comment is one, and then the end of the line comes. -/
theorem splitComment_cases (h : Lexeme.scan? (splitComment cs).2 = some (l, rest)) :
    (splitComment cs).1 = [] ∨
      l = .newline ∧ ∃ remark, (splitComment cs).1 = ';' :: remark ∧ '\n' ∉ remark := by
  unfold splitComment at h ⊢
  split
  · next ds =>
    right
    replace h : Lexeme.scan? (ds.dropWhile (· != '\n')) = some (l, rest) := h
    refine ⟨?_, _, rfl, ?_⟩
    · cases hrest : ds.dropWhile (· != '\n') with
      | nil =>
        rw [hrest] at h
        cases h
      | cons c es =>
        have hc := head_dropWhile (congrArg List.head? hrest)
        have hnewline : c = '\n' := by simpa using hc
        subst hnewline
        rw [hrest] at h
        cases h
        rfl
    · intro hmem
      have := List.mem_takeWhile_imp hmem
      simp at this
  · exact .inl rfl

/-- What is skipped in front of a lexeme is a gap. -/
theorem isGap_splitGap (h : Lexeme.scan? (splitGap cs).2 = some (l, rest)) :
    IsGap (splitGap cs).1 l :=
  ⟨_, _, rfl, fun _ hc => List.mem_takeWhile_imp hc, splitComment_cases h⟩

/-- A scanned atom is one, and as long as possible. -/
theorem Lexeme.atom_of_scan? {a : String} (h : Lexeme.scan? cs = some (.atom a, rest)) :
    IsAtom a.toList ∧ Delimited rest := by
  unfold scan? at h
  split at h
  · cases h
  · cases h
  · cases h
  · cases h
  · next _ _ _ hquote =>
    split at h
    · cases h
    · next c atomTail hatom =>
      cases h
      rw [String.toList_ofList]
      refine ⟨⟨List.cons_ne_nil _ _, fun d hd => ?_, ?_⟩, fun d hd => ?_⟩
      · rw [← hatom] at hd
        simpa using List.mem_takeWhile_imp hd
      · -- The atom starts where the text does, and that is at no quote mark.
        rintro ⟨⟩
        cases cs with
        | nil => cases hatom
        | cons d ds =>
          rw [List.takeWhile_cons] at hatom
          split at hatom
          · cases hatom
            exact hquote ds rfl
          · cases hatom
      · simpa using head_dropWhile hd

/-! ### Pieces -/

/-- A token with the gap in front of it. -/
structure Piece where
  gap : List Char
  token : Token

namespace Piece

/-- The text of a piece. -/
def chars (p : Piece) : List Char := p.gap ++ p.token.text.toList

/-- A piece between the text before it and the text after it: its gap is one, its atom is one as
long as possible, and its token tells its place. -/
structure Fits (before after : List Char) (p : Piece) : Prop where
  gap : IsGap p.gap p.token.lexeme
  atom : ∀ a, p.token.lexeme = .atom a →
    Lexeme.IsAtom a.toList ∧ ∃ c, after.head? = some c ∧ isDelimiter c = true
  line : p.token.line = lineAfter (before ++ p.gap)
  column : p.token.column = columnAfter (before ++ p.gap)

variable {before after more : List Char} {p q : Piece}

theorem Fits.scan?_eq (h : p.Fits before after) :
    Lexeme.scan? (p.token.text.toList ++ after) = some (p.token.lexeme, after) := by
  rw [Token.text]
  cases hl : p.token.lexeme with
  | leftParen | rightParen | newline | quote => rfl
  | atom a =>
    obtain ⟨hatom, c, hafter, hc⟩ := h.atom a hl
    have hdelimited : Delimited after := by
      intro d hd
      rw [hafter] at hd
      cases hd
      exact hc
    have hscan := Lexeme.scan?_atom hatom hdelimited
    rw [String.ofList_toList] at hscan
    exact hscan

theorem Fits.starts (h : p.Fits before after) {c : Char}
    (hc : (p.token.text.toList ++ after).head? = some c) : Starts c := by
  rw [Token.text] at hc
  cases hl : p.token.lexeme with
  | leftParen | rightParen | newline | quote =>
    rw [hl] at hc
    cases hc
    constructor <;> decide
  | atom a =>
    rw [hl, Lexeme.text] at hc
    obtain ⟨hatom, -⟩ := h.atom a hl
    obtain ⟨d, ds, hds⟩ := List.exists_cons_of_ne_nil hatom.nonempty
    rw [hds] at hc
    cases hc
    exact Lexeme.starts_of_isDelimiter (hatom.solid _ (by simp [hds]))

theorem Fits.splitGap_eq (h : p.Fits before after) :
    splitGap (p.chars ++ after) = (p.gap, p.token.text.toList ++ after) := by
  rw [chars, List.append_assoc]
  exact h.gap.splitGap_eq fun c hc => h.starts hc

theorem Fits.chars_ne_nil (h : p.Fits before after) : p.chars ≠ [] := by
  have htext := Lexeme.text_ne_nil_of_scan? h.scan?_eq
  exact List.append_ne_nil_of_right_ne_nil _ htext

/-- What is left of a text determines the piece at its front. -/
theorem Fits.unique {after' : List Char} (hp : p.Fits before after) (hq : q.Fits before after')
    (h : p.chars ++ after = q.chars ++ after') : p = q ∧ after = after' := by
  have hsplit := hp.splitGap_eq
  rw [h, hq.splitGap_eq] at hsplit
  obtain ⟨hgap, hrest⟩ := Prod.mk.injEq .. ▸ hsplit
  have hscan := hp.scan?_eq
  rw [← hrest, hq.scan?_eq] at hscan
  obtain ⟨hlexeme, hafter⟩ : q.token.lexeme = p.token.lexeme ∧ after' = after := by
    simpa using hscan
  have hline : p.token.line = q.token.line := by rw [hp.line, hq.line, hgap]
  have hcolumn : p.token.column = q.token.column := by rw [hp.column, hq.column, hgap]
  obtain ⟨gap, lexeme, line, column⟩ := p
  obtain ⟨gap', lexeme', line', column'⟩ := q
  cases hgap
  cases hlexeme
  cases hline
  cases hcolumn
  exact ⟨rfl, hafter.symm⟩

/-- What scanning finds fits where it was found. -/
theorem fits_of_scan? {number column : Nat}
    (hscan : Lexeme.scan? (splitGap cs).2 = some (l, rest)) (hrest : l ≠ .newline → rest ≠ [])
    (hline : lineAfter (before ++ (splitGap cs).1) = number)
    (hcolumn : columnAfter (before ++ (splitGap cs).1) = column) :
    Piece.Fits before rest ⟨(splitGap cs).1, ⟨l, number, column⟩⟩ where
  gap := isGap_splitGap hscan
  line := hline.symm
  column := hcolumn.symm
  atom a ha := by
    cases ha
    obtain ⟨hatom, hdelimited⟩ := Lexeme.atom_of_scan? hscan
    obtain ⟨c, ds, rfl⟩ := List.exists_cons_of_ne_nil (hrest nofun)
    exact ⟨hatom, c, rfl, hdelimited c rfl⟩

theorem Fits.append (h : p.Fits before after) (more : List Char) :
    p.Fits before (after ++ more) where
  gap := h.gap
  line := h.line
  column := h.column
  atom a ha := by
    obtain ⟨hatom, c, hc, hdelimiter⟩ := h.atom a ha
    exact ⟨hatom, c, by rw [List.head?_append, hc]; rfl, hdelimiter⟩

end Piece

/-! ### Cuts -/

/-- After the text `before` every piece fits. -/
def AllFit (before : List Char) : List Piece → Prop
  | [] => True
  | p :: ps => p.Fits before (ps.flatMap Piece.chars) ∧ AllFit (before ++ p.chars) ps

/-- The text is cut into pieces, and each of them fits. -/
structure IsCut (text : List Char) (ps : List Piece) : Prop where
  text : ps.flatMap Piece.chars = text
  fits : ∀ before p after, ps = before ++ p :: after →
    p.Fits (before.flatMap Piece.chars) (after.flatMap Piece.chars)

variable {before text : List Char} {p : Piece} {ps qs : List Piece}

theorem AllFit.append (hp : AllFit before ps) (hq : AllFit (before ++ ps.flatMap Piece.chars) qs) :
    AllFit before (ps ++ qs) := by
  induction ps generalizing before with
  | nil => simpa using hq
  | cons p ps ih =>
    obtain ⟨hfits, hps⟩ := hp
    rw [List.flatMap_cons, ← List.append_assoc] at hq
    have hfits' : p.Fits before ((ps ++ qs).flatMap Piece.chars) := by
      rw [List.flatMap_append]
      exact hfits.append _
    exact ⟨hfits', ih hps hq⟩

theorem AllFit.fits (h : AllFit before ps) {ps₁ ps₂ : List Piece} (hps : ps = ps₁ ++ p :: ps₂) :
    p.Fits (before ++ ps₁.flatMap Piece.chars) (ps₂.flatMap Piece.chars) := by
  induction ps₁ generalizing before ps with
  | nil =>
    subst hps
    simpa using h.1
  | cons q ps₁ ih =>
    subst hps
    simpa using ih h.2 rfl

theorem AllFit.isCut (h : AllFit [] ps) : IsCut (ps.flatMap Piece.chars) ps :=
  ⟨rfl, fun _ _ _ hps => h.fits hps⟩

theorem allFit_of_fits (h : ∀ ps₁ p ps₂, ps = ps₁ ++ p :: ps₂ →
    p.Fits (before ++ ps₁.flatMap Piece.chars) (ps₂.flatMap Piece.chars)) : AllFit before ps := by
  induction ps generalizing before with
  | nil => trivial
  | cons p ps ih =>
    refine ⟨by simpa using h [] p ps rfl, ih fun ps₁ q ps₂ hps => ?_⟩
    simpa using h (p :: ps₁) q ps₂ (by rw [hps]; rfl)

theorem AllFit.unique (hp : AllFit before ps) (hq : AllFit before qs)
    (h : ps.flatMap Piece.chars = qs.flatMap Piece.chars) : ps = qs := by
  induction ps generalizing before qs with
  | nil =>
    cases qs with
    | nil => rfl
    | cons q qs =>
      rw [List.flatMap_cons] at h
      exact absurd (List.append_eq_nil_iff.1 h.symm).1 hq.1.chars_ne_nil
  | cons p ps ih =>
    cases qs with
    | nil =>
      rw [List.flatMap_cons] at h
      exact absurd (List.append_eq_nil_iff.1 h).1 hp.1.chars_ne_nil
    | cons q qs =>
      rw [List.flatMap_cons, List.flatMap_cons] at h
      obtain ⟨rfl, hrest⟩ := hp.1.unique hq.1 h
      rw [ih hp.2 hq.2 hrest]

/-- There is only one way to cut a text. -/
theorem IsCut.unique (hp : IsCut text ps) (hq : IsCut text qs) : ps = qs := by
  have hps : AllFit [] ps := allFit_of_fits hp.fits
  have hqs : AllFit [] qs := allFit_of_fits hq.fits
  exact hps.unique hqs (hp.text.trans hq.text.symm)

/-! ### Texts after a newline -/

/-- What is scanned in front of a newline is scanned there whatever comes after it. -/
theorem LineEnded.scan?_append (h : LineEnded cs)
    (hscan : Lexeme.scan? (splitGap cs).2 = some (l, rest)) (more : List Char) :
    LineEnded rest ∧ Lexeme.scan? (splitGap (cs ++ more)).2 = some (l, rest ++ more) := by
  have hne : cs ≠ [] := by
    rintro rfl
    cases hscan
  obtain ⟨l', rest', hscan', hended, hlast⟩ := h.exists_scan? hne
  rw [hscan] at hscan'
  cases hscan'
  -- The gap is taken to stand at the start of the text; its place does not matter.
  have hpiece : Piece.Fits [] rest _ := Piece.fits_of_scan? hscan (mt hlast) rfl rfl
  have hfits := hpiece.append more
  have hsplit := hfits.splitGap_eq
  have hcut : (splitGap cs).1 ++ l.text.toList ++ (rest ++ more) = cs ++ more := by
    rw [← List.append_assoc, List.append_assoc _ _ rest, Lexeme.text_append_of_scan? hscan,
      splitGap_append]
  rw [Piece.chars, Token.text, hcut] at hsplit
  rw [hsplit]
  exact ⟨hended, hfits.scan?_eq⟩

/-- What comes after a newline does not change the lexemes before it. -/
theorem LineEnded.scanAll_append (h : LineEnded cs) (more : List Char) :
    Lexeme.scanAll (cs ++ more) = Lexeme.scanAll cs ++ Lexeme.scanAll more := by
  fun_induction Lexeme.scanAll cs with
  | case1 cs hscan =>
    rw [h.eq_nil_of_scan? hscan, List.nil_append, List.nil_append]
  | case2 cs l rest hscan ih =>
    obtain ⟨hended, hscan'⟩ := h.scan?_append hscan more
    rw [Lexeme.scanAll_eq_cons hscan', ih hended, List.cons_append]

end PocketLisp
