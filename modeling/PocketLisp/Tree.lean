import PocketLisp.Token

/-!
# Balanced pieces of a text

Before the grammar looks at a text, its parentheses are matched: a piece is a single lexeme or a
group between two parentheses that belong together.

## Main definitions

- `Tree` — the pieces
- `Tree.lexemes` — the lexemes of a piece, in order
- `Tree.take?` — the piece at the front of a list of lexemes, and the rest

## Main statements

- `Tree.lexemes_append_of_take?` — taking a piece only cuts the list

## Design notes

Whether a piece means anything is not asked here: its leaves may be line ends or words that no
rule of the grammar admits.
-/

namespace PocketLisp

/-- A balanced piece of a text. -/
inductive Tree where
  /-- A lexeme other than a parenthesis. -/
  | leaf (lexeme : Lexeme)
  /-- The pieces between an opening parenthesis and the closing one that belongs to it. -/
  | group (items : List Tree)
  deriving Inhabited

namespace Tree

mutual

/-- The lexemes of a piece, in order. -/
def lexemes : Tree → List Lexeme
  | leaf lexeme => [lexeme]
  | group items => .leftParen :: (allLexemes items ++ [.rightParen])

/-- The lexemes of several pieces, in order. -/
def allLexemes : List Tree → List Lexeme
  | [] => []
  | t :: ts => t.lexemes ++ allLexemes ts

end

/-- Reads on inside the groups that are open, innermost first, each given by the pieces it has so
far, latest first. The answer is the outermost piece and what follows it. -/
def takeInside : List (List Tree) → List Lexeme → Option (Tree × List Lexeme)
  | _, [] => none
  | enclosing, .leftParen :: ls => takeInside ([] :: enclosing) ls
  | [], .rightParen :: _ => none
  | [items], .rightParen :: ls => some (group items.reverse, ls)
  | items :: outer :: enclosing, .rightParen :: ls =>
    takeInside ((group items.reverse :: outer) :: enclosing) ls
  | [], l :: ls => some (leaf l, ls)
  | items :: enclosing, l :: ls => takeInside ((leaf l :: items) :: enclosing) ls

/-- The piece at the front of a list of lexemes, and the rest. There is none at a closing
parenthesis, and none where a group is never closed. -/
def take? (ls : List Lexeme) : Option (Tree × List Lexeme) :=
  takeInside [] ls

theorem allLexemes_append (ts us : List Tree) :
    allLexemes (ts ++ us) = allLexemes ts ++ allLexemes us := by
  induction ts with
  | nil => rfl
  | cons t ts ih => simp [allLexemes, ih]

/-- The lexemes that were read inside groups that are open, innermost first. -/
def openLexemes : List (List Tree) → List Lexeme
  | [] => []
  | items :: enclosing =>
    openLexemes enclosing ++ .leftParen :: allLexemes items.reverse

theorem lexemes_append_of_takeInside {enclosing : List (List Tree)} {ls rest : List Lexeme}
    {t : Tree} (h : takeInside enclosing ls = some (t, rest)) :
    openLexemes enclosing ++ ls = t.lexemes ++ rest := by
  fun_induction takeInside enclosing ls with
  | case1 => cases h
  | case2 _ _ ih => simpa [openLexemes, allLexemes] using ih h
  | case3 => cases h
  | case4 => cases h; simp [openLexemes, lexemes]
  | case5 _ _ _ _ ih => simpa [openLexemes, lexemes, allLexemes, allLexemes_append] using ih h
  | case6 => cases h; simp [openLexemes, lexemes]
  | case7 _ _ _ _ _ _ _ ih =>
    simpa [openLexemes, lexemes, allLexemes, allLexemes_append] using ih h

/-- Taking a piece only cuts the list. -/
theorem lexemes_append_of_take? {ls rest : List Lexeme} {t : Tree}
    (h : take? ls = some (t, rest)) : t.lexemes ++ rest = ls :=
  (lexemes_append_of_takeInside h).symm

end Tree

end PocketLisp
