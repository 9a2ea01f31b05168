import PocketLisp.Text.Blank
import PocketLisp.Token

/-!
# Cutting tokens from a text

A text is read from its front: first a gap, then a lexeme.

## Main definitions

- `isDelimiter` — the characters that end an atom
- `splitGap` — the gap before the next token, and the rest
- `Lexeme.scan?` — the lexeme at the front of a text, and the rest

## Main statements

- `splitGap_append` and `Lexeme.text_append_of_scan?` — both only cut: nothing is lost
- `Lexeme.length_lt_of_scan?` — scanning a lexeme uses up part of the text
-/

namespace PocketLisp

/-- Whether `c` ends an atom: white space, parentheses and the start of a comment. A quote mark
inside an atom is part of it. -/
def isDelimiter (c : Char) : Bool :=
  isBlank c || c == '(' || c == ')' || c == ';'

/-- White space within a line. -/
def isInlineBlank (c : Char) : Bool :=
  c != '\n' && isBlank c

/-- The comment at the front of a text, up to the end of the line, and the rest. -/
def splitComment : List Char → List Char × List Char
  | ';' :: cs => (';' :: cs.takeWhile (· != '\n'), cs.dropWhile (· != '\n'))
  | cs => ([], cs)

/-- The gap at the front of a text, white space within the line and then perhaps a comment, and
the rest. -/
def splitGap (cs : List Char) : List Char × List Char :=
  let (comment, rest) := splitComment (cs.dropWhile isInlineBlank)
  (cs.takeWhile isInlineBlank ++ comment, rest)

/-- The lexeme at the front of a text, and the rest. An atom is as long as possible. -/
def Lexeme.scan? : List Char → Option (Lexeme × List Char)
  | '(' :: cs => some (leftParen, cs)
  | ')' :: cs => some (rightParen, cs)
  | '\n' :: cs => some (newline, cs)
  | '\x27' :: cs => some (quote, cs)
  | cs =>
    match cs.takeWhile fun c => !isDelimiter c with
    | [] => none
    | c :: atomTail =>
      some (atom (String.ofList (c :: atomTail)), cs.dropWhile fun c => !isDelimiter c)

theorem splitComment_append (cs : List Char) :
    (splitComment cs).1 ++ (splitComment cs).2 = cs := by
  unfold splitComment
  split <;> simp [List.takeWhile_append_dropWhile]

theorem splitGap_append (cs : List Char) : (splitGap cs).1 ++ (splitGap cs).2 = cs := by
  simp only [splitGap, List.append_assoc]
  rw [splitComment_append, List.takeWhile_append_dropWhile]

theorem length_splitGap_le (cs : List Char) : (splitGap cs).2.length ≤ cs.length := by
  have h := congrArg List.length (splitGap_append cs)
  rw [List.length_append] at h
  omega

namespace Lexeme

theorem text_append_of_scan? {cs rest : List Char} {l : Lexeme}
    (h : scan? cs = some (l, rest)) : l.text.toList ++ rest = cs := by
  unfold scan? at h
  split at h
  · cases h; rfl
  · cases h; rfl
  · cases h; rfl
  · cases h; rfl
  · split at h
    · cases h
    · next c atomTail hatom =>
      cases h
      rw [text, String.toList_ofList, ← hatom, List.takeWhile_append_dropWhile]

theorem text_ne_nil_of_scan? {cs rest : List Char} {l : Lexeme}
    (h : scan? cs = some (l, rest)) : l.text.toList ≠ [] := by
  unfold scan? at h
  split at h
  · cases h; decide
  · cases h; decide
  · cases h; decide
  · cases h; decide
  · split at h
    · cases h
    · cases h
      rw [text, String.toList_ofList]
      exact List.cons_ne_nil _ _

theorem length_lt_of_scan? {cs rest : List Char} {l : Lexeme}
    (h : scan? cs = some (l, rest)) : rest.length < cs.length := by
  have hlen := congrArg List.length (text_append_of_scan? h)
  have hpos := List.length_pos_iff.2 (text_ne_nil_of_scan? h)
  rw [List.length_append] at hlen
  omega

end Lexeme

end PocketLisp
