import PocketLisp.Primitive
import PocketLisp.Text.Numeral

/-!
# Values

The values of the language and their printed form.

## Main definitions

- `Value` — the values
- `Value.ofList` — the list of the given items, ended by the empty list
- `Value.text` — the printed form
- `Value.beq` — structural equality

## Design notes

A closure is a number: its place in the store's table of closures (`Store.closures`). Making a
closure always takes a new place, so two closures are the same value exactly when the same
evaluation of the same `lambda` made them, and equality of values is plain structural equality.
-/

namespace PocketLisp

/-- A place in the table of closures. -/
abbrev ClosureId := Nat

/-- A value of the language. -/
inductive Value where
  /-- The empty list, which is also the only false value. -/
  | nil
  | number (n : Word)
  | symbol (name : String)
  /-- A cell; a chain of cells in the second place is a list. -/
  | pair (car cdr : Value)
  | closure (id : ClosureId)
  | primitive (op : Primitive)
  deriving Inhabited

namespace Value

/-- The value that stands for truth. -/
def truth : Value := symbol "T"

/-- Truth, or the empty list for falsehood. -/
def ofBool : Bool → Value
  | true => truth
  | false => nil

/-- The list of the given items, ended by the empty list. -/
def ofList (items : List Value) : Value :=
  items.foldr pair nil

/-- Whether the value is the empty list. -/
def isNil : Value → Bool
  | nil => true
  | _ => false

/-- Everything but the empty list counts as true. -/
def isTruthy (v : Value) : Bool := !v.isNil

/-- The word for the kind of a value in error messages. -/
def kind : Value → String
  | nil => "nil"
  | number _ => "number"
  | symbol _ => "symbol"
  | pair .. => "pair"
  | closure _ => "closure"
  | primitive _ => "primop"

/-! ### Printed form -/

/-- The text of a value that is no pair. -/
def leafChars : Value → List Char
  | number n => Numeral.chars n.toInt
  | symbol name => name.toList
  | closure _ => "<closure>".toList
  | primitive op => op.name.toList
  | nil | pair .. => "()".toList

mutual

/-- The text of a value: lists in parentheses, with a dot before an end that is not the empty
list. A symbol is written by its name, without any mark. -/
def chars : Value → List Char
  | pair car cdr => '(' :: (car.chars ++ cdr.restChars)
  | v => v.leafChars

/-- The text of what follows the first item of a list, up to the closing parenthesis. -/
def restChars : Value → List Char
  | nil => [')']
  | pair car cdr => ' ' :: (car.chars ++ cdr.restChars)
  | v => ' ' :: '.' :: ' ' :: (v.leafChars ++ [')'])

end

/-- The printed form of a value. -/
def text (v : Value) : String := String.ofList v.chars

/-! ### Equality -/

/-- Structural equality: numbers by value, symbols and primitives by name, closures by
identity. -/
def beq : Value → Value → Bool
  | nil, nil => true
  | number m, number n => m == n
  | symbol s, symbol t => s == t
  | pair a d, pair a' d' => a.beq a' && d.beq d'
  | closure i, closure j => i == j
  | primitive p, primitive q => p.name == q.name
  | _, _ => false

instance : BEq Value := ⟨beq⟩

end Value

end PocketLisp
