import PocketLisp.Error
import PocketLisp.Word

/-!
# Exact arithmetic

Sums, differences, products and quotients of 64-bit integers, exact or refused.

## Main definitions

- `Word.exactly` — an exact result as a word, or the overflow of an operation
- `Word.add?`, `Word.sub?`, `Word.mul?`, `Word.floorDiv?` — the four operations
- `Word.truncDiv?`, `Word.roundedUp` — the quotient rounded toward zero, and whether that is up

## Design notes

A quotient is rounded toward zero first, as machines do it, and is one too large after that when
something remains and the signs of the operands differ. The remainder and the step down are
operations on words, which would wrap around silently; that they do not is a property of division.
-/

namespace PocketLisp

namespace Word

/-- The word whose value is the exact result of an operation. -/
def exactly (operation : String) (result : Int) : Except Error Word :=
  match ofInt? result with
  | some w => .ok w
  | none => .error (.overflow operation)

def add? (a b : Word) : Except Error Word := exactly "addition" (a.toInt + b.toInt)

def sub? (a b : Word) : Except Error Word := exactly "subtraction" (a.toInt - b.toInt)

def mul? (a b : Word) : Except Error Word := exactly "multiplication" (a.toInt * b.toInt)

/-- The quotient rounded toward zero. -/
def truncDiv? (a b : Word) : Except Error Word := exactly "division" (a.toInt.tdiv b.toInt)

/-- Whether rounding the quotient toward zero rounds it up: something remains, and the operands
have different signs. -/
def roundedUp (a b : Word) : Bool := a % b != 0 && decide (a < 0) != decide (b < 0)

/-- The quotient rounded down to an integer. -/
def floorDiv? (a b : Word) : Except Error Word :=
  if b = 0 then .error .divisionByZero
  else do
    let quotient ← truncDiv? a b
    return if roundedUp a b then quotient - 1 else quotient

end Word

end PocketLisp
