import PocketLisp.Proofs.Input.Silent
import PocketLisp.Proofs.Input.Tokenize

/-!
# The forms of a text

The forms of a text are its tokens, grouped. Where a form ends nothing of it is kept, so tokens that
leave no form unfinished are grouped by themselves, whatever comes after them.

## Main definitions

- `Token.groupAfter`, `Token.group` — the forms that tokens make up, and what is left of them
- `Form.parts` — the tokens of a form
- `LeavesNothing` — a text that leaves no form unfinished
- `Token.down`, `Form.down` — tokens and forms that many lines further down

## Main statements

- `formsOf_eq` — the forms of a text are its tokens, grouped
- `Token.group_append` — tokens that leave nothing are grouped by themselves
- `tokensOf_append` — the tokens of a text after complete lines are further down, but the same
- `formsOf_append` — and so are its forms, after a text that leaves nothing
-/

namespace PocketLisp

/-! ### Tokens, grouped -/

namespace Token

/-- The forms that tokens make up after the tokens `seen`, latest first, which leave `depth`
parentheses open; and the tokens that are left unfinished. -/
def groupAfter : List Token → Int → List Token → List Form × List Token
  | seen, _, [] => ([], seen.reverse)
  | seen, depth, t :: ts =>
    if t.lexeme = .newline then
      if depth ≤ 0 ∧ seen ≠ [] then
        (Form.ofTokens seen.reverse :: (groupAfter [] 0 ts).1, (groupAfter [] 0 ts).2)
      else groupAfter seen depth ts
    else groupAfter (t :: seen) (depth + t.lexeme.nesting) ts

/-- The forms that tokens make up, and the tokens that are left unfinished. -/
def group (ts : List Token) : List Form × List Token := groupAfter [] 0 ts

variable {t : Token} {seen ts us : List Token} {depth : Int}

theorem groupAfter_of_end (ht : t.lexeme = .newline) (hend : depth ≤ 0 ∧ seen ≠ []) :
    groupAfter seen depth (t :: ts) =
      (Form.ofTokens seen.reverse :: (group ts).1, (group ts).2) := by
  rw [groupAfter, if_pos ht, if_pos hend]
  rfl

theorem groupAfter_of_newline (ht : t.lexeme = .newline) (hend : ¬ (depth ≤ 0 ∧ seen ≠ [])) :
    groupAfter seen depth (t :: ts) = groupAfter seen depth ts := by
  rw [groupAfter, if_pos ht, if_neg hend]

theorem groupAfter_of_part (ht : t.lexeme ≠ .newline) :
    groupAfter seen depth (t :: ts) = groupAfter (t :: seen) (depth + t.lexeme.nesting) ts := by
  rw [groupAfter, if_neg ht]

/-- Tokens that leave nothing unfinished are grouped by themselves. -/
theorem groupAfter_append (hseen : seen = [] → depth = 0)
    (hleft : (groupAfter seen depth ts).2 = []) (us : List Token) :
    groupAfter seen depth (ts ++ us) =
      ((groupAfter seen depth ts).1 ++ (group us).1, (group us).2) := by
  induction ts generalizing seen depth with
  | nil =>
    have hnil : seen = [] := List.reverse_eq_nil_iff.1 hleft
    rw [hnil, hseen hnil]
    rfl
  | cons t ts ih =>
    by_cases ht : t.lexeme = .newline
    · by_cases hend : depth ≤ 0 ∧ seen ≠ []
      · rw [groupAfter_of_end ht hend] at hleft
        rw [List.cons_append, groupAfter_of_end ht hend, groupAfter_of_end ht hend, group,
          ih (fun _ => rfl) hleft]
        rfl
      · rw [groupAfter_of_newline ht hend] at hleft
        rw [List.cons_append, groupAfter_of_newline ht hend, groupAfter_of_newline ht hend,
          ih hseen hleft]
    · rw [groupAfter_of_part ht] at hleft
      have hne : t :: seen = [] → depth + t.lexeme.nesting = 0 := fun h =>
        absurd h (List.cons_ne_nil _ _)
      rw [List.cons_append, groupAfter_of_part ht, groupAfter_of_part ht, ih hne hleft]

theorem group_append (hleft : (group ts).2 = []) (us : List Token) :
    (group (ts ++ us)).1 = (group ts).1 ++ (group us).1 := by
  rw [group, groupAfter_append (fun _ => rfl) hleft]
  rfl

end Token

/-! ### The tokens of forms -/

namespace Form

/-- The tokens of a form; those of a request to stop are not kept. -/
def parts : Form → List Token
  | tokens ts => ts
  | quit => []

variable {ts : List Token}

theorem parts_ofTokens (h : ofTokens ts ≠ quit) : (ofTokens ts).parts = ts := by
  unfold ofTokens at h ⊢
  split at h
  · split at h
    · exact absurd rfl h
    · next hquit => rw [if_neg hquit]; rfl
  · rfl

theorem ofTokens_ne_nil (h : ts ≠ []) : ofTokens ts ≠ tokens [] := by
  unfold ofTokens
  split
  · split
    · exact nofun
    · exact fun heq => nomatch heq
  · exact fun heq => h (tokens.inj heq)

end Form

namespace Token

variable {seen ts : List Token} {depth : Int}

theorem ne_nil_of_mem_groupAfter {form : Form} (h : form ∈ (groupAfter seen depth ts).1) :
    form ≠ .tokens [] := by
  induction ts generalizing seen depth with
  | nil => cases h
  | cons t ts ih =>
    by_cases ht : t.lexeme = .newline
    · by_cases hend : depth ≤ 0 ∧ seen ≠ []
      · rw [groupAfter_of_end ht hend] at h
        rcases List.mem_cons.1 h with rfl | h
        · exact Form.ofTokens_ne_nil (mt List.reverse_eq_nil_iff.1 hend.2)
        · exact ih h
      · rw [groupAfter_of_newline ht hend] at h
        exact ih h
    · rw [groupAfter_of_part ht] at h
      exact ih h

/-- Every token but line ends is in a form, or is left unfinished. -/
theorem parts_groupAfter (hquit : .quit ∉ (groupAfter seen depth ts).1) :
    (groupAfter seen depth ts).1.flatMap Form.parts ++ (groupAfter seen depth ts).2 =
      seen.reverse ++ ts.filter (·.lexeme ≠ .newline) := by
  induction ts generalizing seen depth with
  | nil => simp [groupAfter]
  | cons t ts ih =>
    by_cases ht : t.lexeme = .newline
    · by_cases hend : depth ≤ 0 ∧ seen ≠ []
      · rw [groupAfter_of_end ht hend] at hquit ⊢
        obtain ⟨hfirst, hrest⟩ := not_or.1 (mt List.mem_cons.2 hquit)
        have hparts : (Form.ofTokens seen.reverse).parts = seen.reverse :=
          Form.parts_ofTokens (Ne.symm hfirst)
        have hall := ih hrest
        rw [List.reverse_nil, List.nil_append] at hall
        rw [List.flatMap_cons, hparts, List.append_assoc, group, hall]
        simp [ht]
      · rw [groupAfter_of_newline ht hend] at hquit ⊢
        rw [ih hquit]
        simp [ht]
    · rw [groupAfter_of_part ht] at hquit ⊢
      rw [ih hquit]
      simp [ht]

end Token

/-! ### The forms of a stream -/

namespace TokenStream

variable {s : TokenStream} {lines : List (List Char)}

theorem HasLines.setContinuation (h : s.HasLines lines) (b : Bool) :
    (s.setContinuation b).HasLines lines :=
  ⟨h.silent, h.reads, h.nonempty, h.ended, h.exhausted⟩

/-- One reading of a form takes the first group of the tokens that are left. -/
theorem HasLines.readFormAfter (h : s.HasLines lines) (seen : List Token) (depth : Int) :
    ((Token.groupAfter seen depth (s.tokensLeft lines)).1 = [] ∧
      ∃ s', ∀ c, readFormAfter seen depth s c = (.ok none, s', c)) ∨
    ∃ form s' lines', (∀ c, readFormAfter seen depth s c = (.ok (some form), s', c)) ∧
      s'.HasLines lines' ∧ (Token.groupAfter seen depth (s.tokensLeft lines)).1 =
        form :: (Token.group (s'.tokensLeft lines')).1 := by
  -- Each token leaves less to read.
  induction hn : s.remaining using Nat.strongRecOn generalizing s lines seen depth with
  | ind n ih =>
    subst hn
    rcases h.next_cases with ⟨hleft, s', hnext⟩ | ⟨t, s', lines', hnext, h', hleft⟩
    · rw [hleft]
      exact .inl ⟨rfl, s', fun c => readFormAfter_of_none seen depth (hnext c)⟩
    · have hlt : s'.remaining < s.remaining := remaining_lt_of_next (hnext .unlimited)
      have hstep (c : Console) := readFormAfter_of_token seen depth (hnext c)
      rw [hleft]
      by_cases ht : t.lexeme = .newline
      · by_cases hend : depth ≤ 0 ∧ seen ≠ []
        · right
          refine ⟨Form.ofTokens seen.reverse, s', lines', fun c => ?_, h', ?_⟩
          · rw [hstep, if_pos ht, if_pos hend]
          · rw [Token.groupAfter_of_end ht hend]
        · simp only [if_pos ht, if_neg hend] at hstep
          simp only [Token.groupAfter_of_newline ht hend, hstep]
          exact ih _ (by simpa using hlt) (h'.setContinuation (!seen.isEmpty)) seen depth rfl
      · simp only [if_neg ht] at hstep
        simp only [Token.groupAfter_of_part ht, hstep]
        exact ih _ hlt h' _ _ rfl

/-- The forms of a silent source are the tokens that are left, grouped. -/
theorem HasLines.allForms_eq (h : s.HasLines lines) :
    s.allForms = (Token.group (s.tokensLeft lines)).1 := by
  induction hn : s.remaining using Nat.strongRecOn generalizing s lines with
  | ind n ih =>
    subst hn
    rcases (h.setContinuation false).readFormAfter [] 0 with
      ⟨hnone, s', hread⟩ | ⟨form, s', lines', hread, h', hsome⟩
    · rw [allForms_of_none (hread .unlimited)]
      exact hnone.symm
    · rw [allForms_of_form (hread .unlimited),
        ih _ (remaining_lt_of_readForm (hread .unlimited)) h' rfl]
      exact hsome.symm

end TokenStream

/-- The forms of a text are its tokens, grouped. -/
theorem formsOf_eq (text : String) : formsOf text = (Token.group (tokensOf text)).1 := by
  rw [formsOf, (TokenStream.hasLines_ofString text).allForms_eq, TokenStream.tokensLeft_ofString]

theorem ne_nil_of_mem_formsOf {form : Form} {text : String} (h : form ∈ formsOf text) :
    form ≠ .tokens [] := by
  rw [formsOf_eq] at h
  exact Token.ne_nil_of_mem_groupAfter h

/-- No form is left unfinished: every token, line ends apart, is in one of the forms. This is about
texts in which no form is a request to stop. -/
def LeavesNothing (text : String) : Prop :=
  ∃ ts, tokenize text = .ok ts ∧
    (formsOf text).flatMap Form.parts = ts.filter (·.lexeme ≠ .newline)

theorem LeavesNothing.left_eq_nil {text : String} (h : LeavesNothing text)
    (hquit : .quit ∉ formsOf text) : (Token.group (tokensOf text)).2 = [] := by
  obtain ⟨ts, htokens, hparts⟩ := h
  rw [tokenize_eq] at htokens
  cases htokens
  rw [formsOf_eq] at hquit hparts
  have hall := Token.parts_groupAfter hquit
  have hgroup : (Token.groupAfter [] 0 (tokensOf text)).1 = (Token.group (tokensOf text)).1 := rfl
  rw [hgroup, hparts, List.reverse_nil, List.nil_append] at hall
  exact List.append_right_eq_self.1 hall

/-! ### Further down -/

/-- The token, `n` lines further down. -/
def Token.down (n : Nat) (t : Token) : Token := { t with line := t.line + n }

/-- The form, `n` lines further down. -/
def Form.down (n : Nat) : Form → Form
  | tokens ts => tokens (ts.map (Token.down n))
  | quit => quit

variable {n : Nat}

theorem Form.ofTokens_map_down (ts : List Token) :
    ofTokens (ts.map (Token.down n)) = (ofTokens ts).down n := by
  rcases ts with - | ⟨t, - | ⟨u, ts⟩⟩
  · rfl
  · simp only [ofTokens, List.map_cons, List.map_nil, Token.down]
    split
    · rfl
    · rfl
  · rfl

/-- Where tokens are does not matter for how they are grouped. -/
theorem Token.groupAfter_map_down (seen : List Token) (depth : Int) (ts : List Token) :
    (groupAfter (seen.map (down n)) depth (ts.map (down n))).1 =
      (groupAfter seen depth ts).1.map (Form.down n) := by
  induction ts generalizing seen depth with
  | nil => rfl
  | cons t ts ih =>
    have hlexeme : (t.down n).lexeme = t.lexeme := rfl
    rw [List.map_cons]
    by_cases ht : t.lexeme = .newline
    · by_cases hend : depth ≤ 0 ∧ seen ≠ []
      · have hend' : depth ≤ 0 ∧ seen.map (down n) ≠ [] :=
          ⟨hend.1, mt List.map_eq_nil_iff.1 hend.2⟩
        rw [groupAfter_of_end (hlexeme.trans ht) hend', groupAfter_of_end ht hend, List.map_cons,
          ← List.map_reverse, Form.ofTokens_map_down]
        exact congrArg (_ :: ·) (ih [] 0)
      · have hend' : ¬ (depth ≤ 0 ∧ seen.map (down n) ≠ []) := by
          rwa [ne_eq, List.map_eq_nil_iff]
        rw [groupAfter_of_newline (hlexeme.trans ht) hend', groupAfter_of_newline ht hend, ih]
    · rw [groupAfter_of_part (hlexeme ▸ ht), groupAfter_of_part ht, hlexeme]
      exact ih (t :: seen) _

/-- The tokens of a line with a single lexeme. -/
theorem tokensOfLine_single {number : Nat} {cs : List Char} {l : Lexeme}
    (h : Lexeme.scan? (splitGap cs).2 = some (l, ['\n'])) :
    tokensOfLine number 0 cs = [⟨l, number, (splitGap cs).1.length + 1⟩,
      ⟨.newline, number, (splitGap cs).1.length + l.text.length + 1⟩] := by
  have hnewline : Lexeme.scan? (splitGap ['\n']).2 = some (.newline, []) := rfl
  rw [tokensOfLine_eq_cons h, tokensOfLine_eq_cons hnewline, tokensOfLine_nil, Nat.zero_add]
  rfl

/-- The tokens of a text of a single line. -/
theorem tokensOf_eq_line {text : String} {line : List Char}
    (h : splitAfter '\n' text.toList = [line]) :
    tokensOf text = tokensOfLine 1 0 (TokenStream.completeLine line) := by
  rw [tokensOf, h]
  exact List.append_nil _

theorem tokensOfLine_add (number n offset : Nat) (cs : List Char) :
    tokensOfLine (number + n) offset cs = (tokensOfLine number offset cs).map (Token.down n) := by
  fun_induction tokensOfLine number offset cs with
  | case1 offset cs hscan => rw [tokensOfLine_eq_nil hscan, List.map_nil]
  | case2 offset cs l rest hscan =>
    rename_i ih
    rw [tokensOfLine_eq_cons hscan, List.map_cons]
    exact congrArg (_ :: ·) ih

theorem tokensOfLines_add (number n : Nat) (lines : List (List Char)) :
    tokensOfLines (number + n) lines = (tokensOfLines number lines).map (Token.down n) := by
  induction lines generalizing number with
  | nil => rfl
  | cons line lines ih =>
    rw [tokensOfLines, tokensOfLines, List.map_append, tokensOfLine_add, ← ih, Nat.add_right_comm]

theorem tokensOfLines_append (number : Nat) (lines lines' : List (List Char)) :
    tokensOfLines number (lines ++ lines') =
      tokensOfLines number lines ++ tokensOfLines (number + lines.length) lines' := by
  induction lines generalizing number with
  | nil => rfl
  | cons line lines ih =>
    rw [List.cons_append, tokensOfLines, tokensOfLines, ih, List.append_assoc, List.length_cons,
      Nat.add_assoc, Nat.add_comm 1]

/-! ### Texts put together -/

theorem LineEnded.of_cons {c : Char} {cs : List Char} (h : LineEnded (c :: cs)) :
    LineEnded cs := by
  have happend : LineEnded ([c] ++ cs) := h
  exact happend.of_append

/-- The lines of a text after complete lines. -/
theorem splitAfter_append {cs : List Char} (h : LineEnded cs) (ds : List Char) :
    splitAfter '\n' (cs ++ ds) = splitAfter '\n' cs ++ splitAfter '\n' ds := by
  induction cs with
  | nil => rfl
  | cons c cs ih =>
    have ih := ih h.of_cons
    by_cases hc : c = '\n'
    · subst hc
      rw [List.cons_append, splitAfter_newline, splitAfter_newline, ih, List.cons_append]
    · cases hsplit : splitAfter '\n' cs with
      | nil =>
        -- The text would be one character, which is no line end.
        rw [splitAfter_eq_nil hsplit] at h
        exact absurd (h c rfl) hc
      | cons line lines =>
        rw [hsplit, List.cons_append] at ih
        rw [List.cons_append, splitAfter_cons hc hsplit, splitAfter_cons hc ih, List.cons_append]

/-- Complete lines are as many as there are line ends. -/
theorem length_splitAfter {cs : List Char} (h : LineEnded cs) :
    (splitAfter '\n' cs).length = cs.count '\n' := by
  induction cs with
  | nil => rfl
  | cons c cs ih =>
    have ih := ih h.of_cons
    by_cases hc : c = '\n'
    · subst hc
      rw [splitAfter_newline, List.length_cons, ih, List.count_cons_self]
    · cases hsplit : splitAfter '\n' cs with
      | nil =>
        rw [splitAfter_eq_nil hsplit] at h
        exact absurd (h c rfl) hc
      | cons line lines =>
        rw [hsplit] at ih
        rw [splitAfter_cons hc hsplit, List.count_cons_of_ne hc, ← ih]
        rfl

variable {a : String}

/-- The tokens of a text after complete lines are the same, as many lines further down. -/
theorem tokensOf_append (h : LineEnded a.toList) (b : String) :
    tokensOf (a ++ b) = tokensOf a ++ (tokensOf b).map (Token.down (a.toList.count '\n')) := by
  rw [tokensOf, String.toList_append, splitAfter_append h, List.map_append, tokensOfLines_append,
    List.length_map, length_splitAfter h, tokensOfLines_add]
  rfl

/-- The forms of a text after a text that leaves nothing are the same, as many lines further
down. -/
theorem formsOf_append (h : LineEnded a.toList) (hquit : .quit ∉ formsOf a)
    (hnothing : LeavesNothing a) (b : String) :
    formsOf (a ++ b) = formsOf a ++ (formsOf b).map (Form.down (a.toList.count '\n')) := by
  rw [formsOf_eq, formsOf_eq, formsOf_eq, tokensOf_append h,
    Token.group_append (hnothing.left_eq_nil hquit)]
  exact congrArg (_ ++ ·) (Token.groupAfter_map_down [] 0 (tokensOf b))

end PocketLisp
