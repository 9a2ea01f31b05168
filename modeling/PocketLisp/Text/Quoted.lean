import PocketLisp.Text.Printable

/-!
# Quoted text

A text between quotation marks, on one line, with every character visible.

## Main definitions

- `escapeChar` — what is written for a character
- `quoted` — what is written for a text
-/

namespace PocketLisp

/-- What is written for a character between quotation marks. Characters that are not printable
are written by their code point. -/
def escapeChar (c : Char) : List Char :=
  if c = '\x22' then "\\\"".toList
  else if c = '\x5c' then "\\\\".toList
  else if c = '\n' then "\\n".toList
  else if c = '\t' then "\\t".toList
  else if c = '\r' then "\\r".toList
  else if c = '\x00' then "\\0".toList
  else if isPrintable c then [c]
  else "\\u\x7b".toList ++ Nat.toDigits 16 c.toNat ++ "\x7d".toList

/-- A text between quotation marks. -/
def quoted (text : String) : String :=
  "\"" ++ String.ofList (text.toList.flatMap escapeChar) ++ "\""

end PocketLisp
