import PocketLisp.Input.TokenStream

/-!
# Top-level forms

The tokens of a stream are grouped into forms. A form ends at the first line end at which no
parenthesis is open.

## Main definitions

- `Form` — the tokens of a form, or the request to stop
- `TokenStream.readForm` — the next form of a stream

## Main statements

- `TokenStream.remaining_lt_of_readForm` — a form read leaves less to read

## Design notes

More closing than opening parentheses end a form as well. Line ends are no part of a form, and a
form that the input leaves unfinished is dropped. The prompt for the next line depends on whether
the form has begun.
-/

namespace PocketLisp

/-- What one reading of a form gives. -/
inductive Form where
  /-- The tokens of a form, line ends left out. -/
  | tokens (ts : List Token)
  /-- The form that consists of the word `quit` alone: a request to stop. -/
  | quit
  deriving DecidableEq, Inhabited

/-- The form that some tokens make up. -/
def Form.ofTokens : List Token → Form
  | [t] => if t.lexeme = .atom "quit" then quit else tokens [t]
  | ts => tokens ts

theorem Form.ofTokens_eq (ts : List Token) :
    ofTokens ts = if ts.map Token.lexeme = [.atom "quit"] then quit else tokens ts := by
  unfold ofTokens
  split
  · simp
  · next hne =>
    rw [if_neg]
    intro hquit
    obtain ⟨t, us, rfl, ht, hus⟩ := List.map_eq_cons_iff.1 hquit
    rw [List.map_eq_nil_iff.1 hus] at hne
    exact hne t rfl

/-- How a token changes the number of open parentheses. -/
def Lexeme.nesting : Lexeme → Int
  | leftParen => 1
  | rightParen => -1
  | _ => 0

namespace TokenStream

/-- Reads on in a form of which the tokens `seen`, latest first, were read already and leave
`depth` parentheses open. -/
def readFormAfter (seen : List Token) (depth : Int) (s : TokenStream) (c : Console) :
    Except Failure (Option Form) × TokenStream × Console :=
  match _h : s.next c with
  | (.error f, s', c') => (.error f, s', c')
  | (.ok none, s', c') => (.ok none, s', c')
  | (.ok (some t), s', c') =>
    if t.lexeme = .newline then
      if depth ≤ 0 ∧ seen ≠ [] then (.ok (some (Form.ofTokens seen.reverse)), s', c')
      else readFormAfter seen depth (s'.setContinuation (!seen.isEmpty)) c'
    else readFormAfter (t :: seen) (depth + t.lexeme.nesting) s' c'
termination_by s.remaining
decreasing_by all_goals simpa using remaining_lt_of_next _h

/-- The next form, or nothing at the end of the input. -/
def readForm (s : TokenStream) (c : Console) :
    Except Failure (Option Form) × TokenStream × Console :=
  readFormAfter [] 0 (s.setContinuation false) c

theorem remaining_lt_of_readFormAfter {seen : List Token} {depth : Int}
    {s s' : TokenStream} {c c' : Console} {form : Form}
    (h : readFormAfter seen depth s c = (.ok (some form), s', c')) :
    s'.remaining < s.remaining := by
  fun_induction readFormAfter seen depth s c with
  | case1 => cases h
  | case2 => cases h
  | case3 _ _ _ _ _ _ _ hnext => cases h; exact remaining_lt_of_next hnext
  | case4 _ _ _ _ _ _ _ hnext _ _ ih =>
    exact Nat.lt_trans (by simpa using ih h) (remaining_lt_of_next hnext)
  | case5 _ _ _ _ _ _ _ hnext _ ih =>
    exact Nat.lt_trans (ih h) (remaining_lt_of_next hnext)

/-- A form read leaves less to read. -/
theorem remaining_lt_of_readForm {s s' : TokenStream} {c c' : Console} {form : Form}
    (h : s.readForm c = (.ok (some form), s', c')) : s'.remaining < s.remaining :=
  remaining_lt_of_readFormAfter (s := s.setContinuation false) h

end TokenStream

end PocketLisp
