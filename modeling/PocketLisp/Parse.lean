import PocketLisp.Error
import PocketLisp.Expr
import PocketLisp.Tree

/-!
# Reading expressions

Balanced pieces are read as values and as expressions.

    expression  ::=  value  |  name
                  |  ( if expression expression expression )
                  |  ( while expression expression )
                  |  ( set name expression )
                  |  ( begin expression+ )
                  |  ( expression+ )
    value       ::=  number  |  ' constant  |  ( lambda ( name* ) expression )
    constant    ::=  number  |  name  |  ( constant* )

## Main definitions

- `Tree.constant?`, `Tree.expr?` — the meaning of a piece
- `takeConstant?`, `takeExpr?`, `takeValueExpr?` — the meaning of the front of a list of lexemes,
  and the rest
- `parse` — the expression that a whole form is read as

## Design notes

A group that begins with a keyword but does not fit the rule of that keyword is a call of the
variable of that name.

A quote mark is also a name. In front of a piece that is a constant it makes a quoted constant;
where a name is asked for, among formals, as the target of `set` and inside a constant, it is a
name; and as an expression it is one where no constant follows. Inside a group that means at its
end: a piece that is no constant is no expression either, so the group has no meaning anyway.
-/

namespace PocketLisp

/-- The number that a lexeme denotes. -/
def Lexeme.number? : Lexeme → Option Word
  | atom text => Numeral.read? text
  | _ => none

/-- The name that a lexeme denotes: a word that is no number, or a lone quote mark. -/
def Lexeme.name? : Lexeme → Option String
  | quote => some "'"
  | atom text => if isName text then some text else none
  | _ => none

/-- The constant that a lexeme denotes. -/
def Lexeme.constant? (l : Lexeme) : Option Value :=
  match l.number? with
  | some n => some (.number n)
  | none => l.name?.map .symbol

/-- The expression that a lexeme denotes. -/
def Lexeme.expr? (l : Lexeme) : Option Expr :=
  match l.number? with
  | some n => some (.literal (.number n))
  | none => l.name?.map .var

/-- The expression of a group whose first item is the variable `name`: a special form if the
arguments suit that keyword, else a call. -/
def Expr.headed (name : String) (args : List Expr) : Expr :=
  match name, args with
  | "if", [_, _, _] => .special .branch args
  | "while", [_, _] => .special .loop args
  | "set", [.var _, _] => .special .assign args
  | "begin", _ :: _ => .special .sequence args
  | _, _ => .call (.var name) args

/-- The expression of a group of the given items. -/
def Expr.ofItems? : List Expr → Option Expr
  | [] => none
  | .var name :: args => some (.headed name args)
  | operator :: args => some (.call operator args)

namespace Tree

/-- The name that a piece denotes. -/
def name? : Tree → Option String
  | leaf l => l.name?
  | group _ => none

mutual

/-- The constant that a piece denotes. -/
def constant? : Tree → Option Value
  | leaf l => l.constant?
  | group items => (constants? items).map .ofList

/-- The constants that several pieces denote. -/
def constants? : List Tree → Option (List Value)
  | [] => some []
  | t :: ts =>
    match t.constant? with
    | none => none
    | some v => (constants? ts).map (v :: ·)

end

mutual

/-- The expression that a piece denotes. -/
def expr? : Tree → Option Expr
  | leaf l => l.expr?
  | group items =>
    match binder? items with
    | some e => some e
    | none => (exprs? items).bind Expr.ofItems?

/-- The expression of a group in which a name is asked for where an expression would be read
otherwise: a `lambda`, or a `set` whose target is the quote mark. -/
def binder? : List Tree → Option Expr
  | leaf (.atom "lambda") :: group formals :: body =>
    match formals.mapM name?, exprs? body with
    | some names, some [e] => some (.lambda names e)
    | _, _ => none
  | leaf (.atom "set") :: leaf .quote :: rest =>
    match exprs? rest with
    | some [e] => some (.special .assign [.var "'", e])
    | _ => none
  | _ => none

/-- The expressions that the items of a group denote. -/
def exprs? : List Tree → Option (List Expr)
  | [] => some []
  | [leaf .quote] => some [.var "'"]
  | leaf .quote :: t :: ts =>
    match t.constant? with
    | none => none
    | some v => (exprs? ts).map (.literal v :: ·)
  | t :: ts =>
    match t.expr? with
    | none => none
    | some e => (exprs? ts).map (e :: ·)

end

end Tree

/-- The constant at the front of a list of lexemes, and the rest. -/
def takeConstant? (ls : List Lexeme) : Option (Value × List Lexeme) :=
  match Tree.take? ls with
  | none => none
  | some (t, rest) => t.constant?.map (·, rest)

/-- The expression at the front of a list of lexemes, and the rest. -/
def takeExpr? (ls : List Lexeme) : Option (Expr × List Lexeme) :=
  match ls with
  | .quote :: rest =>
    match takeConstant? rest with
    | some (v, rest) => some (.literal v, rest)
    | none => some (.var "'", rest)
  | _ =>
    match Tree.take? ls with
    | none => none
    | some (t, rest) => t.expr?.map (·, rest)

/-- Whether an expression is one whose value does not depend on any variable: a number, a quoted
constant or a `lambda`. -/
def Expr.isValue : Expr → Bool
  | literal _ | lambda .. => true
  | _ => false

/-- The number, quoted constant or `lambda` at the front of a list of lexemes, and the rest. -/
def takeValueExpr? (ls : List Lexeme) : Option (Expr × List Lexeme) :=
  (takeExpr? ls).filter fun (e, _) => e.isValue

/-- The expression that a whole form is read as. -/
def parse (ls : List Lexeme) : Except Error Expr :=
  match takeExpr? ls with
  | none => .error .unparsable
  | some (e, []) => .ok e
  | some (_, l :: _) => .error (.trailing l.text)

end PocketLisp
