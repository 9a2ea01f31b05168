/-!
# Primitive operations

The operations that a session starts with: their names, their argument counts and their order.

## Main definitions

- `Primitive` — the operations
- `Primitive.name`, `Primitive.arity` — the name each is bound to and the arguments it takes
- `Primitive.all` — all of them, in the order in which they are installed

## Main statements

- `Primitive.mem_all` — `all` leaves none out
- `Primitive.name_injective` — a name stands for one operation
-/

namespace PocketLisp

/-- A primitive operation. -/
inductive Primitive where
  | add | sub | mul | div
  | less | greater | equal
  | cons | car | cdr
  | isNumber | isSymbol | isList | isNull | isPrimitive | isClosure
  | print
  deriving DecidableEq, Inhabited

namespace Primitive

/-- The name that the operation is bound to at the start. -/
def name : Primitive → String
  | add => "+"
  | sub => "-"
  | mul => "*"
  | div => "/"
  | less => "<"
  | greater => ">"
  | equal => "="
  | cons => "cons"
  | car => "car"
  | cdr => "cdr"
  | isNumber => "number?"
  | isSymbol => "symbol?"
  | isList => "list?"
  | isNull => "null?"
  | isPrimitive => "primop?"
  | isClosure => "closure?"
  | print => "print"

/-- The number of arguments that the operation takes. -/
def arity : Primitive → Nat
  | add | sub | mul | div | less | greater | equal | cons => 2
  | car | cdr | isNumber | isSymbol | isList | isNull | isPrimitive | isClosure | print => 1

/-- Whether the operation writes to the output sink. -/
def writes : Primitive → Bool
  | print => true
  | _ => false

/-- The operations in the order in which they are installed. -/
def all : List Primitive :=
  [add, sub, mul, div, less, greater, equal, cons, car, cdr,
   isNumber, isSymbol, isList, isNull, isPrimitive, isClosure, print]

/-- The operation of this name. -/
def ofName? (name : String) : Option Primitive :=
  all.find? fun p => p.name == name

theorem mem_all (p : Primitive) : p ∈ all := by
  cases p <;> decide

theorem name_injective {p q : Primitive} (h : p.name = q.name) : p = q := by
  cases p <;> cases q <;> first | rfl | exact absurd h (by decide)

end Primitive

end PocketLisp
