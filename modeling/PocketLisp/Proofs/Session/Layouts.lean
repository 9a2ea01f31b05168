import PocketLisp.Proofs.Input.Scripts
import PocketLisp.Proofs.Session.Pieces
import PocketLisp.Proofs.Token.Layouts

/-!
# Layout does not matter

However the lexemes of a form are laid out, the first form read of the text is made of them, and
evaluating it comes to the same, apart from the line that an error tells.

## Main definitions

- `FormResult.unplaced` — a result without the line that an error tells
- `FirstForm` — the first form of a text

## Main statements

- `Token.groupAfter_arranged` — line ends inside of a form do not matter to it
- `Layout.firstForm` — the first form of a layout has its lexemes
- `Session.evalForm_unplaced` — only the lexemes of a form matter to what it comes to
- `Session.layouts_alike` — two layouts of the same lexemes
-/

namespace PocketLisp

open TokenStream (completeLine completeLine_of_lineEnded)

/-! ### The first form of a layout -/

namespace Token

variable {seen ts : List Token} {depth : Int} {ls ms : List Lexeme}

theorem group_newlines {n : Nat} (hts : ts.map lexeme = List.replicate n .newline ++ ms) :
    ∃ us, us.map lexeme = ms ∧ group ts = group us := by
  induction n generalizing ts with
  | zero => exact ⟨ts, hts, rfl⟩
  | succ n ih =>
    rw [List.replicate_succ, List.cons_append, List.map_eq_cons_iff] at hts
    obtain ⟨t, us, rfl, ht, hus⟩ := hts
    rw [group, groupAfter_of_newline ht fun hend => hend.2 rfl]
    exact ih hus

/-- Line ends inside of a form do not matter to it. -/
theorem groupAfter_arranged (h : Arranged depth ls ms) (hclosed : depth + Lexeme.balance ls ≤ 0)
    (hseen : seen ≠ []) (hts : ts.map lexeme = ms) :
    ∃ us forms, us.map lexeme = ls ∧
      (groupAfter seen depth ts).1 = Form.ofTokens (seen.reverse ++ us) :: forms := by
  induction h generalizing seen ts with
  | @ended depth =>
    obtain ⟨t, us, rfl, ht, -⟩ := List.map_eq_cons_iff.1 hts
    have hend : depth ≤ 0 ∧ seen ≠ [] := ⟨by simpa using hclosed, hseen⟩
    refine ⟨[], (group us).1, rfl, ?_⟩
    rw [groupAfter_of_end ht hend, List.append_nil]
  | newline hopen _ ih =>
    obtain ⟨t, us, rfl, ht, hus⟩ := List.map_eq_cons_iff.1 hts
    rw [groupAfter_of_newline ht fun hend => absurd hend.1 (not_le.2 hopen)]
    exact ih hclosed hseen hus
  | @cons depth l ls ms hl _ ih =>
    obtain ⟨t, us, rfl, rfl, hus⟩ := List.map_eq_cons_iff.1 hts
    have ht : t.lexeme ≠ .newline := by
      intro hnewline
      rw [hnewline] at hl
      exact hl
    have hclosed' : depth + t.lexeme.nesting + Lexeme.balance ls ≤ 0 := by
      rw [Lexeme.balance_cons] at hclosed
      omega
    obtain ⟨vs, forms, hvs, hgroup⟩ := ih hclosed' (List.cons_ne_nil t seen) hus
    refine ⟨t :: vs, forms, by rw [List.map_cons, hvs], ?_⟩
    rw [groupAfter_of_part ht, hgroup]
    simp

end Token

/-- The first form that is read of a text. -/
def FirstForm (text : String) (form : Form) : Prop :=
  ∃ s, ∀ c, (TokenStream.ofSource (.ofString text .silent)).readForm c = (.ok (some form), s, c)

variable {ls : List Lexeme} {text text' : String}

theorem firstForm_of_group {form : Form} {forms : List Form}
    (h : (Token.group (tokensOf text)).1 = form :: forms) : FirstForm text form := by
  have hlines := (TokenStream.hasLines_ofString text).setContinuation false
  rw [← TokenStream.tokensLeft_ofString] at h
  rcases hlines.readFormAfter [] 0 with ⟨hnone, -⟩ | ⟨form', s', lines', hread, -, hsome⟩
  · have hgroup := hnone.symm.trans h
    cases hgroup
  · have hgroup := hsome.symm.trans h
    cases hgroup
    exact ⟨s', hread⟩

theorem lexemes_tokensOf (text : String) :
    (tokensOf text).map Token.lexeme = Lexeme.scanAll (completeLine text.toList) := by
  obtain ⟨ts, hts, hlexemes⟩ := lexemes_tokenize text
  rw [tokenize_eq] at hts
  cases hts
  exact hlexemes

/-- A text lacks nothing but perhaps the end of its last line. -/
theorem completeLine_eq_append {cs : List Char} (hne : cs ≠ []) :
    ∃ fill, completeLine cs = cs ++ fill ∧ (fill = ['\n'] ∨ LineEnded cs) := by
  by_cases hended : LineEnded cs
  · exact ⟨[], by rw [completeLine_of_lineEnded hended, List.append_nil], .inr hended⟩
  · obtain ⟨ds, d, rfl⟩ := (List.eq_nil_or_concat' cs).resolve_left hne
    have hd : d ≠ '\n' := by
      rintro rfl
      refine hended fun c hc => ?_
      rw [List.getLast?_concat] at hc
      cases hc
      rfl
    exact ⟨['\n'], by simp [completeLine, hd], .inl rfl⟩

/-- The first form of a layout has its lexemes. -/
theorem Layout.firstForm (h : Layout ls text.toList) (hwritten : ∀ l ∈ ls, l.Written)
    (hclosed : Lexeme.balance ls ≤ 0) :
    ∃ ts, ts.map Token.lexeme = ls ∧ FirstForm text (Form.ofTokens ts) := by
  obtain ⟨fill, hfill, hended⟩ := completeLine_eq_append (h.ne_nil hwritten)
  obtain ⟨n, l, rest, ms, rfl, hl, hrest, hscan⟩ := h.arranged hwritten hended
  have htokens := lexemes_tokensOf text
  rw [hfill, hscan] at htokens
  -- The line ends in front of the form are skipped, and its first lexeme begins it.
  obtain ⟨us, hus, hskip⟩ := Token.group_newlines htokens
  obtain ⟨t, vs, rfl, rfl, hvs⟩ := List.map_eq_cons_iff.1 hus
  have ht : t.lexeme ≠ .newline := by
    intro hnewline
    rw [hnewline] at hl
    exact hl
  have hbalance : 0 + t.lexeme.nesting + Lexeme.balance rest ≤ 0 := by
    rwa [Int.zero_add, ← Lexeme.balance_cons]
  rw [← Int.zero_add t.lexeme.nesting] at hrest
  obtain ⟨ws, forms, hws, hgroup⟩ :=
    Token.groupAfter_arranged hrest hbalance (List.cons_ne_nil t []) hvs
  have hfirst : (Token.group (tokensOf text)).1 = Form.ofTokens (t :: ws) :: forms := by
    rw [hskip, Token.group, Token.groupAfter_of_part ht, hgroup]
    rfl
  exact ⟨t :: ws, by rw [List.map_cons, hws], firstForm_of_group hfirst⟩

/-! ### What a layout comes to -/

/-- The result, without the line that an error tells. -/
def FormResult.unplaced : FormResult → Except Error Value
  | .ok v => .ok v
  | .error e => .error e.error

namespace Session

/-- Only the lexemes of a form matter to what it comes to, apart from the line of an error. -/
theorem evalForm_unplaced {ts ts' : List Token}
    (h : ts.map Token.lexeme = ts'.map Token.lexeme) (fuel : Nat) (s : Session) (out : Sink) :
    (s.evalForm fuel ts out).map (Prod.map FormResult.unplaced id) =
      (s.evalForm fuel ts' out).map (Prod.map FormResult.unplaced id) := by
  obtain ⟨store, global⟩ := s
  simp only [evalForm, h]
  split
  · rfl
  · split
    · rfl
    · rfl
    · rfl

/-- Layout does not matter. The first form of a text is made of the lexemes that the text lays out,
the word `quit` alone being the request to stop; and another layout of the same lexemes comes to the
same in the same session, apart from the line that an error tells. -/
theorem layouts_alike (hwritten : ∀ l ∈ ls, l.Written) (hclosed : Lexeme.balance ls ≤ 0)
    (h : Layout ls text.toList) (h' : Layout ls text'.toList) :
    ∃ ts ts', ts.map Token.lexeme = ls ∧ ts'.map Token.lexeme = ls ∧
      FirstForm text (if ls = [.atom "quit"] then .quit else .tokens ts) ∧
      FirstForm text' (if ls = [.atom "quit"] then .quit else .tokens ts') ∧
      ∀ fuel (s : Session) out,
        (s.evalForm fuel ts out).map (Prod.map FormResult.unplaced id) =
          (s.evalForm fuel ts' out).map (Prod.map FormResult.unplaced id) := by
  obtain ⟨ts, hts, hform⟩ := h.firstForm hwritten hclosed
  obtain ⟨ts', hts', hform'⟩ := h'.firstForm hwritten hclosed
  rw [Form.ofTokens_eq, hts] at hform
  rw [Form.ofTokens_eq, hts'] at hform'
  exact ⟨ts, ts', hts, hts', hform, hform', evalForm_unplaced (hts.trans hts'.symm)⟩

/-- A comment inside of a form. -/
theorem layouts_alike_comment :
    ∃ ts ts', ts.map Token.lexeme = [.leftParen, .atom "a", .rightParen] ∧
      ts'.map Token.lexeme = ts.map Token.lexeme ∧
      FirstForm "(a)" (.tokens ts) ∧ FirstForm "\n(;x\na ) \n7" (.tokens ts') ∧
      ∀ fuel (s : Session) out,
        (s.evalForm fuel ts out).map (Prod.map FormResult.unplaced id) =
          (s.evalForm fuel ts' out).map (Prod.map FormResult.unplaced id) := by
  have hatom : Lexeme.IsAtom "a".toList := .of_all (by decide)
  have hwritten : ∀ l ∈ [.leftParen, .atom "a", .rightParen], Lexeme.Written l := by
    simpa [Lexeme.Written] using hatom
  have hplain : Layout [.leftParen, .atom "a", .rightParen] "(a)".toList := by
    show Layout _ ([] ++ (Lexeme.leftParen.text.toList ++ ([] ++ ((Lexeme.atom "a").text.toList ++
      ([] ++ (Lexeme.rightParen.text.toList ++ []))))))
    exact .mk .nil (.cons .nil nofun nofun (.cons .nil nofun nofun .nil))
  have hcomment : Layout [.leftParen, .atom "a", .rightParen] "\n(;x\na ) \n7".toList := by
    show Layout _ (['\n'] ++ (Lexeme.leftParen.text.toList ++
      ((';' :: (['x'] ++ '\n' :: [])) ++ ((Lexeme.atom "a").text.toList ++
        ([' '] ++ (Lexeme.rightParen.text.toList ++ ([' ', '\n'] ++ ['7'])))))))
    have hgap : Spacing (';' :: (['x'] ++ '\n' :: [])) := .comment (by decide) .nil
    have hend : Spacing [' ', '\n'] := .blank rfl (.blank rfl .nil)
    exact .mk (.blank rfl .nil) (.cons hgap (fun _ => by decide) nofun
      (.cons (.blank rfl .nil) (by decide) nofun (.ended hend (by decide))))
  obtain ⟨ts, ts', hts, hts', hform, hform', heval⟩ :=
    layouts_alike hwritten (by decide) hplain hcomment
  exact ⟨ts, ts', hts, hts'.trans hts.symm, hform, hform', heval⟩

end Session

end PocketLisp
