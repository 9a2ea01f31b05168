import PocketLisp.Store
import PocketLisp.Text.Quoted

/-!
# Inspection

A text that shows how a value is made up, down to the code of closures, and one that shows the
names that a frame binds.

## Main definitions

- `Value.inspect`, `Expr.inspect` — the make-up of values and expressions
- `Store.inspect` — the make-up of a value whose closures are in a store
- `Store.inspectFrame` — the names of a frame and the depth of its scope

## Design notes

A closure is shown by its code alone: the scope that it belongs to may contain the closure.
-/

namespace PocketLisp

/-- Texts between brackets, separated by commas. -/
def bracketed (items : List String) : String :=
  "[" ++ ", ".intercalate items ++ "]"

/-- The word for a keyword in an inspection. -/
def Keyword.inspect : Keyword → String
  | branch => "If"
  | loop => "While"
  | assign => "Set"
  | sequence => "Begin"

section
variable (inspectClosure : ClosureId → String)

/-- The make-up of a value. -/
def Value.inspect : Value → String
  | nil => "Nil"
  | number n => "Number(" ++ n.text ++ ")"
  | symbol name => "Symbol(" ++ quoted name ++ ")"
  | pair car cdr => "Pair(" ++ car.inspect ++ ", " ++ cdr.inspect ++ ")"
  | closure id => inspectClosure id
  | primitive op => "PrimOp(" ++ op.name ++ ")"

/-- The make-up of a `lambda`, given that of its body. -/
def inspectLambda (formals : List String) (body : String) : String :=
  "Lambda \x7b formals: " ++ bracketed (formals.map quoted) ++ ", body: " ++ body ++ " \x7d"

mutual

/-- The make-up of an expression. -/
def Expr.inspect : Expr → String
  | literal value => "Literal(" ++ value.inspect inspectClosure ++ ")"
  | var name => "Variable(" ++ quoted name ++ ")"
  | lambda formals body => "Lambda(" ++ inspectLambda formals body.inspect ++ ")"
  | special keyword args =>
    "Apply \x7b op: Special(" ++ keyword.inspect ++ "), args: " ++
      bracketed (Expr.inspectAll args) ++ " \x7d"
  | call operator args =>
    "Apply \x7b op: Expr(" ++ operator.inspect ++ "), args: " ++
      bracketed (Expr.inspectAll args) ++ " \x7d"

/-- The make-up of each of several expressions. -/
def Expr.inspectAll : List Expr → List String
  | [] => []
  | e :: es => e.inspect :: Expr.inspectAll es

end

end

namespace Store

/-- The code of a closure. A closure in it is an older one, so `nesting` need not exceed the
number of closures. -/
def inspectClosure (s : Store) : (nesting : Nat) → ClosureId → String
  | 0, _ => "Closure \x7b .. \x7d"
  | nesting + 1, id =>
    match s.closures[id]? with
    | none => "Closure \x7b .. \x7d"
    | some c =>
      "Closure \x7b lambda: " ++
        inspectLambda c.formals (c.body.inspect (s.inspectClosure nesting)) ++ ", .. \x7d"

/-- The make-up of a value. -/
def inspect (s : Store) (v : Value) : String :=
  v.inspect (s.inspectClosure s.closures.size)

/-- The names that a frame itself binds, in the order of their characters' code points, and the
number of frames of its scope. -/
def inspectFrame (s : Store) (i : FrameId) : String :=
  let names := (s.bindings i).names.mergeSort fun a b => decide (a ≤ b)
  "Env \x7b bindings: " ++ bracketed (names.map quoted) ++
    ", depth: " ++ toString (s.depth i) ++ " \x7d"

end Store

end PocketLisp
