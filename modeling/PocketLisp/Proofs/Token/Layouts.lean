import PocketLisp.Proofs.Grammar.Spans
import PocketLisp.Proofs.Token.Pieces

/-!
# Layouts

The same lexemes can be written with many different gaps between them. All that is left of the gaps,
once the text is scanned, are line ends, and inside of a form these stand where a parenthesis is
open.

## Main definitions

- `Spacing` — white space and comments
- `Lexeme.Written` — the lexemes that a layout can hold
- `Layout` — a text that writes some lexemes, and may go on in the next line
- `Arranged` — some lexemes with line ends between them

## Main statements

- `Spacing.scanAll_append` — of white space and comments only the line ends are scanned
- `Layout.arranged` — what is scanned of a layout
-/

namespace PocketLisp

/-! ### Gaps of any length -/

/-- White space, line ends included, and comments, each ended by a line end. -/
inductive Spacing : List Char → Prop
  | nil : Spacing []
  | blank {c : Char} {cs : List Char} : isBlank c = true → Spacing cs → Spacing (c :: cs)
  | comment {remark cs : List Char} :
      '\n' ∉ remark → Spacing cs → Spacing (';' :: (remark ++ '\n' :: cs))

variable {gap cs text after : List Char}

/-- Of white space and comments only the line ends are scanned. -/
theorem Spacing.scanAll_append (h : Spacing gap) (cs : List Char) :
    Lexeme.scanAll (gap ++ cs) =
      List.replicate (gap.count '\n') .newline ++ Lexeme.scanAll cs := by
  induction h with
  | nil => rfl
  | @blank c gap hc _ ih =>
    by_cases hnewline : c = '\n'
    · subst hnewline
      rw [List.cons_append, Lexeme.scanAll_newline, ih, List.count_cons_self,
        List.replicate_succ, List.cons_append]
    · have hinline : isInlineBlank c = true := by simp [isInlineBlank, hnewline, hc]
      rw [List.cons_append, Lexeme.scanAll_blank hinline, ih,
        List.count_cons_of_ne hnewline]
  | @comment remark gap hremark _ ih =>
    have hscan : Lexeme.scan? (splitGap (';' :: (remark ++ '\n' :: (gap ++ cs)))).2 =
        some (.newline, gap ++ cs) := by
      rw [splitGap_comment hremark]
      rfl
    have hassoc : ';' :: (remark ++ '\n' :: gap) ++ cs =
        ';' :: (remark ++ '\n' :: (gap ++ cs)) := by simp
    have hcount : (';' :: (remark ++ '\n' :: gap)).count '\n' = gap.count '\n' + 1 := by
      rw [List.count_cons_of_ne (by decide), List.count_append, List.count_eq_zero.2 hremark,
        List.count_cons_self, Nat.zero_add]
    rw [hassoc, Lexeme.scanAll_eq_cons hscan, ih, hcount, List.replicate_succ, List.cons_append]

/-- An atom does not run into white space or a comment. -/
theorem Spacing.delimited (h : Spacing gap) (hne : gap ≠ []) : Delimited (gap ++ cs) := by
  intro d hd
  cases h with
  | nil => exact absurd rfl hne
  | blank hc _ =>
    cases hd
    simp [isDelimiter, hc]
  | comment =>
    cases hd
    rfl

/-! ### Lexemes in a layout -/

namespace Lexeme

/-- The lexemes that a layout can hold: not the end of a line, and an atom only if it can be spelled
as one. -/
def Written : Lexeme → Prop
  | newline => False
  | atom text => IsAtom text.toList
  | _ => True

/-- Without a gap between them, a lexeme and the next one are spelled as a single atom. -/
def RunsInto : Lexeme → Lexeme → Prop
  | atom _, atom _ => True
  | atom _, quote => True
  | _, _ => False

variable {l : Lexeme}

theorem Written.newline_notMem (h : l.Written) : '\n' ∉ l.text.toList := by
  cases l with
  | newline => exact h.elim
  | atom text =>
    intro hmem
    have := h.solid _ hmem
    rw [isDelimiter_newline] at this
    cases this
  | leftParen => decide
  | rightParen => decide
  | quote => decide

theorem Written.text_ne_nil (h : l.Written) : l.text.toList ≠ [] := by
  cases l with
  | newline => exact h.elim
  | atom text => exact h.nonempty
  | leftParen => decide
  | rightParen => decide
  | quote => decide

/-- A lexeme is scanned from its spelling, if an atom does not run into what comes after. -/
theorem Written.scanAll_append (h : l.Written) (hafter : ∀ text, l = atom text → Delimited after) :
    scanAll (l.text.toList ++ after) = l :: scanAll after := by
  cases l with
  | newline => exact h.elim
  | leftParen => exact scanAll_leftParen
  | rightParen => exact scanAll_rightParen
  | quote => exact scanAll_quote
  | atom text =>
    have := scanAll_atom h (hafter text rfl)
    rwa [String.ofList_toList] at this

/-- After a lexeme a text that ends with a line end goes on. -/
theorem Written.lineEnded_rest (h : l.Written) (hended : LineEnded (l.text.toList ++ after)) :
    after ≠ [] ∧ LineEnded after := by
  refine ⟨?_, hended.of_append⟩
  rintro rfl
  rw [List.append_nil] at hended
  exact h.newline_notMem (hended.newline_mem h.text_ne_nil)

/-- An atom does not run into a lexeme that no gap is asked for in front of. -/
theorem Written.delimited {text : String} (h : l.Written) (hruns : ¬ (atom text).RunsInto l) :
    Delimited (l.text.toList ++ after) := by
  intro c hc
  cases l with
  | newline => exact h.elim
  | atom text => exact absurd trivial hruns
  | quote => exact absurd trivial hruns
  | leftParen =>
    cases hc
    rfl
  | rightParen =>
    cases hc
    rfl

end Lexeme

/-! ### Layouts -/

/-- After the lexeme `prev`, with `depth` parentheses open, a text goes on with these lexemes. A gap
may hold a line end only where a parenthesis is open, and may be empty unless the lexemes around it
would run into each other. At last the text ends, or the line. -/
inductive LayoutAfter : Lexeme → Int → List Lexeme → List Char → Prop
  | nil {prev : Lexeme} {depth : Int} : LayoutAfter prev depth [] []
  | ended {prev : Lexeme} {depth : Int} {gap rest : List Char} :
      Spacing gap → '\n' ∈ gap → LayoutAfter prev depth [] (gap ++ rest)
  | cons {prev l : Lexeme} {depth : Int} {ls : List Lexeme} {gap cs : List Char} :
      Spacing gap → ('\n' ∈ gap → 0 < depth) → (prev.RunsInto l → gap ≠ []) →
      LayoutAfter l (depth + l.nesting) ls cs →
      LayoutAfter prev depth (l :: ls) (gap ++ (l.text.toList ++ cs))

/-- A text that writes these lexemes after any gap, and may go on in the next line. -/
inductive Layout : List Lexeme → List Char → Prop
  | mk {l : Lexeme} {ls : List Lexeme} {gap cs : List Char} :
      Spacing gap → LayoutAfter l l.nesting ls cs →
      Layout (l :: ls) (gap ++ (l.text.toList ++ cs))

/-- With `depth` parentheses open, these lexemes follow with line ends between them, each of them
where a parenthesis is open; and then a line ends. -/
inductive Arranged : Int → List Lexeme → List Lexeme → Prop
  | ended {depth : Int} {rest : List Lexeme} : Arranged depth [] (.newline :: rest)
  | newline {depth : Int} {ls ms : List Lexeme} :
      0 < depth → Arranged depth ls ms → Arranged depth ls (.newline :: ms)
  | cons {depth : Int} {l : Lexeme} {ls ms : List Lexeme} :
      l.Written → Arranged (depth + l.nesting) ls ms → Arranged depth (l :: ls) (l :: ms)

variable {prev l : Lexeme} {depth : Int} {ls ms : List Lexeme} {fill : List Char}

theorem Layout.ne_nil (h : Layout ls text) (hwritten : ∀ l ∈ ls, l.Written) : text ≠ [] := by
  cases h with
  | @mk l rest gap cs hgap hrest =>
    have hl := (hwritten l List.mem_cons_self).text_ne_nil
    simp [hl]

theorem Arranged.newlines {n : Nat} (hn : 0 < n → 0 < depth) (h : Arranged depth ls ms) :
    Arranged depth ls (List.replicate n .newline ++ ms) := by
  induction n with
  | zero => exact h
  | succ n ih =>
    have hdepth := hn n.succ_pos
    exact .newline hdepth (ih fun _ => hdepth)

theorem LayoutAfter.delimited {a : String} (h : LayoutAfter (.atom a) depth ls cs)
    (hwritten : ∀ l ∈ ls, l.Written) (hfill : fill = ['\n'] ∨ cs ≠ [] ∧ LineEnded cs) :
    Delimited (cs ++ fill) := by
  cases h with
  | nil =>
    obtain rfl | ⟨hne, -⟩ := hfill
    · intro c hc
      cases hc
      rfl
    · exact absurd rfl hne
  | ended hgap hnewline =>
    rw [List.append_assoc]
    exact hgap.delimited (List.ne_nil_of_mem hnewline)
  | @cons _ l _ ls gap _ hgap _ hruns _ =>
    simp only [List.append_assoc]
    by_cases hnil : gap = []
    · subst hnil
      exact (hwritten l List.mem_cons_self).delimited fun hinto => hruns hinto rfl
    · exact hgap.delimited hnil

/-- The lexeme in front of the rest of a layout is scanned, and the rest still ends with a line end
once it is completed. -/
theorem LayoutAfter.scanAll_lexeme (h : LayoutAfter l depth ls cs)
    (hwritten : ∀ m ∈ l :: ls, m.Written)
    (hfill : fill = ['\n'] ∨ LineEnded (l.text.toList ++ cs)) :
    (fill = ['\n'] ∨ cs ≠ [] ∧ LineEnded cs) ∧
      Lexeme.scanAll (l.text.toList ++ (cs ++ fill)) = l :: Lexeme.scanAll (cs ++ fill) := by
  obtain ⟨hl, hls⟩ := List.forall_mem_cons.1 hwritten
  have hrest : fill = ['\n'] ∨ cs ≠ [] ∧ LineEnded cs := hfill.imp_right hl.lineEnded_rest
  refine ⟨hrest, hl.scanAll_append ?_⟩
  rintro a rfl
  exact h.delimited hls hrest

/-- What is scanned of the rest of a layout, once it ends with a line end. -/
theorem LayoutAfter.arranged (h : LayoutAfter prev depth ls cs) (hwritten : ∀ l ∈ ls, l.Written)
    (hfill : fill = ['\n'] ∨ cs ≠ [] ∧ LineEnded cs) :
    Arranged depth ls (Lexeme.scanAll (cs ++ fill)) := by
  induction h with
  | nil =>
    obtain rfl | ⟨hne, -⟩ := hfill
    · rw [List.nil_append, Lexeme.scanAll_newline]
      exact .ended
    · exact absurd rfl hne
  | @ended _ depth gap rest hgap hnewline =>
    obtain ⟨n, hn⟩ := Nat.exists_eq_succ_of_ne_zero (List.count_pos_iff.2 hnewline).ne'
    rw [List.append_assoc, hgap.scanAll_append, hn, List.replicate_succ]
    exact .ended
  | @cons _ l depth ls gap cs hgap hopen _ hrest ih =>
    obtain ⟨hl, hls⟩ := List.forall_mem_cons.1 hwritten
    obtain ⟨hfill', hscan⟩ :=
      hrest.scanAll_lexeme hwritten (hfill.imp_right fun hended => hended.2.of_append)
    rw [List.append_assoc, List.append_assoc, hgap.scanAll_append, hscan]
    have hopen' : 0 < gap.count '\n' → 0 < depth := fun hcount =>
      hopen (List.count_pos_iff.1 hcount)
    exact Arranged.newlines hopen' (.cons hl (ih hls hfill'))

/-- What is scanned of a layout: line ends, the first lexeme, and the others as they are arranged.
-/
theorem Layout.arranged (h : Layout ls text) (hwritten : ∀ l ∈ ls, l.Written)
    (hfill : fill = ['\n'] ∨ LineEnded text) :
    ∃ n l rest ms, ls = l :: rest ∧ l.Written ∧ Arranged l.nesting rest ms ∧
      Lexeme.scanAll (text ++ fill) = List.replicate n .newline ++ l :: ms := by
  cases h with
  | @mk l rest gap cs hgap hrest =>
    obtain ⟨hl, hls⟩ := List.forall_mem_cons.1 hwritten
    obtain ⟨hfill', hscan⟩ :=
      hrest.scanAll_lexeme hwritten (hfill.imp_right fun hended => hended.of_append)
    refine ⟨gap.count '\n', l, rest, _, rfl, hl, hrest.arranged hls hfill', ?_⟩
    rw [List.append_assoc, List.append_assoc, hgap.scanAll_append, hscan]

end PocketLisp
