import PocketLisp.Text.Ranges

/-!
# White space

Which characters separate the tokens of a line: those with the Unicode property White_Space.

## Main definitions

- `blankRanges` — the ranges of code points that have the property
- `isBlank` — whether a character has it

## Design notes

Core's `Char.isWhitespace` knows four characters only, so the property is kept as a table here.
-/

namespace PocketLisp

/-- The white space characters, in increasing order. -/
def blankRanges : Ranges :=
  [(0x09, 0x0D), (0x20, 0x20), (0x85, 0x85), (0xA0, 0xA0), (0x1680, 0x1680),
   (0x2000, 0x200A), (0x2028, 0x2029), (0x202F, 0x202F), (0x205F, 0x205F), (0x3000, 0x3000)]

/-- Whether `c` is a white space character, the newline included. -/
def isBlank (c : Char) : Bool := blankRanges.contains c

example : blankRanges.Increasing := by decide

example : blankRanges.count = 25 := by decide

end PocketLisp
