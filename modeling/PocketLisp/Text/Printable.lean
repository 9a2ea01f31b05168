import PocketLisp.Text.Combining
import PocketLisp.Text.Unassigned

/-!
# Printable characters

Which characters stand for themselves in a quoted text. The others would be invisible, would merge
with the character before them, or mean nothing.

## Main definitions

- `invisibleRanges` — controls, format characters, private use and separators
- `fillerRanges` — letters without a shape
- `isPrintable` — whether a character is visible, combines with no other, and is assigned
-/

namespace PocketLisp

/-- Controls, format characters, characters for private use, and separators other than the space,
in increasing order: the general categories Cc, Cf, Co, Zl, Zp and Zs. -/
def invisibleRanges : Ranges :=
  [(0x0, 0x1F), (0x7F, 0xA0), (0xAD, 0xAD), (0x600, 0x605), (0x61C, 0x61C), (0x6DD, 0x6DD),
   (0x70F, 0x70F), (0x890, 0x891), (0x8E2, 0x8E2), (0x1680, 0x1680), (0x180E, 0x180E),
   (0x2000, 0x200F), (0x2028, 0x202F), (0x205F, 0x2064), (0x2066, 0x206F), (0x3000, 0x3000),
   (0xE000, 0xF8FF), (0xFEFF, 0xFEFF), (0xFFF9, 0xFFFB), (0x110BD, 0x110BD), (0x110CD, 0x110CD),
   (0x13430, 0x1343F), (0x1BCA0, 0x1BCA3), (0x1D173, 0x1D17A), (0xE0001, 0xE0001),
   (0xE0020, 0xE007F), (0xF0000, 0xFFFFD), (0x100000, 0x10FFFD)]

/-- The letters that fill a place without showing, in increasing order: of the characters with the
property Default_Ignorable_Code_Point, those that no other table holds. -/
def fillerRanges : Ranges :=
  [(0x115F, 0x1160), (0x3164, 0x3164), (0xFFA0, 0xFFA0)]

/-- Whether a character stands for itself in a quoted text. -/
def isPrintable (c : Char) : Bool :=
  !(invisibleRanges.contains c || fillerRanges.contains c || combiningRanges.contains c ||
    unassignedRanges.contains c)

example : invisibleRanges.Increasing := by decide

example : invisibleRanges.count = 137721 := by decide

end PocketLisp
