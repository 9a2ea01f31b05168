/-!
# Tokens

The smallest pieces of a text that matter to the grammar, with the place where each starts.

## Main definitions

- `Lexeme` — what a token is, without its place
- `Lexeme.text` — its spelling in the text
- `Token` — a lexeme with its line and column
- `Token.describe` — the token and its place, for a reader
-/

namespace PocketLisp

/-- What a token is. The end of a line is a token too: it can end a form. -/
inductive Lexeme where
  | leftParen
  | rightParen
  | newline
  | quote
  /-- A maximal run of other characters: a name or a number. -/
  | atom (text : String)
  deriving DecidableEq, Inhabited

/-- The spelling of a lexeme in the text. -/
def Lexeme.text : Lexeme → String
  | leftParen => "("
  | rightParen => ")"
  | newline => "\n"
  | quote => "'"
  | atom text => text

/-- A lexeme with the line and the column where it starts, both counted from 1. -/
structure Token where
  lexeme : Lexeme
  line : Nat
  column : Nat
  deriving DecidableEq, Inhabited

namespace Token

/-- The spelling of a token in the text. -/
def text (t : Token) : String := t.lexeme.text

/-- The token and its place, for a reader. -/
def describe (t : Token) : String :=
  match t.lexeme with
  | .newline => s!"newline at {t.line}:{t.column}"
  | _ => s!"'{t.text}' at {t.line}:{t.column}"

end Token

end PocketLisp
