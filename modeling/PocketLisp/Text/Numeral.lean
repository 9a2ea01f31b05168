import PocketLisp.Word

/-!
# Decimal numerals and names

The two kinds of atoms: numerals, an optional minus sign and ASCII digits, and names, all else
that can stand for a variable or a symbol.

## Main definitions

- `isNumeral`, `isName` — the two shapes
- `Numeral.value` — the integer that a numeral denotes, of any size
- `Numeral.read?` — the word that a numeral denotes
- `Numeral.chars` — the shortest numeral of an integer

## Design notes

A numeral out of the 64-bit range denotes no word, and being a numeral it is not a name either.
-/

namespace PocketLisp

namespace Numeral

/-- The text after an optional minus sign. -/
def unsigned : List Char → List Char
  | '-' :: digits => digits
  | digits => digits

/-- The integer that a numeral denotes; leading zeros count for nothing. -/
def value : List Char → Int
  | '-' :: digits => -(Nat.ofDigitChars 10 digits 0 : Int)
  | digits => (Nat.ofDigitChars 10 digits 0 : Int)

/-- The shortest numeral of an integer. -/
def chars : Int → List Char
  | .ofNat n => Nat.toDigits 10 n
  | .negSucc n => '-' :: Nat.toDigits 10 (n + 1)

end Numeral

/-- Whether `text` has the shape of an integer: an optional minus sign and at least one digit. -/
def isNumeral (text : String) : Bool :=
  let digits := Numeral.unsigned text.toList
  !digits.isEmpty && digits.all Char.isDigit

/-- Whether `text` can name a variable or a symbol: it is not empty, has not the shape of an
integer, and holds no parenthesis, semicolon or space. -/
def isName (text : String) : Bool :=
  !text.isEmpty && !isNumeral text &&
    text.toList.all fun c => c != '(' && c != ')' && c != ';' && c != ' '

/-- The word that a numeral denotes: nothing for a text of another shape or out of range. -/
def Numeral.read? (text : String) : Option Word :=
  if isNumeral text then Word.ofInt? (Numeral.value text.toList) else none

theorem isName_eq_false_of_isNumeral {text : String} (h : isNumeral text) :
    isName text = false := by
  simp [isName, h]

/-- The numeral of a word, as text. -/
def Word.text (w : Word) : String :=
  String.ofList (Numeral.chars w.toInt)

end PocketLisp
