import PocketLisp.Value

/-!
# Expression trees

What a form is read as, and its printed form.

## Main definitions

- `Keyword` — the operators whose arguments are not all evaluated first
- `Expr` — expression trees
- `Expr.text` — the printed form
- `Expr.beq` — structural equality

## Design notes

A special form holds any list of arguments: whether their number and kind suit the keyword is a
property of a tree, decided when it is read and checked again when it is evaluated.
-/

namespace PocketLisp

/-- The keyword of a special form. -/
inductive Keyword where
  /-- The first argument selects which of the other two is evaluated. -/
  | branch
  /-- The second argument is evaluated as long as the first is true. -/
  | loop
  /-- The variable in the first place is given the value of the second. -/
  | assign
  /-- The arguments are evaluated in order. -/
  | sequence
  deriving DecidableEq, Inhabited

/-- The spelling of a keyword. -/
def Keyword.text : Keyword → String
  | branch => "if"
  | loop => "while"
  | assign => "set"
  | sequence => "begin"

/-- An expression tree. -/
inductive Expr where
  /-- A value known when the form is read: a number or a quoted constant. -/
  | literal (value : Value)
  | var (name : String)
  | lambda (formals : List String) (body : Expr)
  | special (keyword : Keyword) (args : List Expr)
  | call (operator : Expr) (args : List Expr)
  deriving Inhabited

namespace Expr

/-! ### Printed form -/

mutual

/-- The text of an expression. A quoted constant is written without its quote mark. -/
def chars : Expr → List Char
  | literal value => value.chars
  | var name => name.toList
  | lambda formals body =>
    "(lambda (".toList ++ (" ".intercalate formals).toList ++
      (')' :: ' ' :: (body.chars ++ [')']))
  | special keyword args => '(' :: (keyword.text.toList ++ argsChars args)
  | call operator args => '(' :: (operator.chars ++ argsChars args)

/-- The text of arguments, each after a space, up to the closing parenthesis. -/
def argsChars : List Expr → List Char
  | [] => [')']
  | arg :: args => ' ' :: (arg.chars ++ argsChars args)

end

/-- The printed form of an expression. -/
def text (e : Expr) : String := String.ofList e.chars

/-! ### Equality -/

mutual

/-- Structural equality. -/
def beq : Expr → Expr → Bool
  | literal v, literal w => v == w
  | var x, var y => x == y
  | lambda formals body, lambda formals' body' => formals == formals' && body.beq body'
  | special keyword args, special keyword' args' => keyword == keyword' && beqAll args args'
  | call operator args, call operator' args' => operator.beq operator' && beqAll args args'
  | _, _ => false

/-- Structural equality of argument lists. -/
def beqAll : List Expr → List Expr → Bool
  | [], [] => true
  | e :: es, f :: fs => e.beq f && beqAll es fs
  | _, _ => false

end

instance : BEq Expr := ⟨beq⟩

end Expr

end PocketLisp
