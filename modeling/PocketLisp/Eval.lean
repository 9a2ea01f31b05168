import PocketLisp.Eval.Basic

/-!
# Evaluation

The value of an expression in a scope.

## Main definitions

- `eval` — the value of an expression
- `evalAll` — the values of arguments, from left to right
- `evalLast` — expressions in order, of which the last gives the value
- `evalWhile` — one expression again and again, as long as another one is true
- `evalSpecial`, `evalCall` — special forms and calls

## Design notes

A call looks at its operator first: an operator that cannot be called, or not with this many
arguments, is an error before any argument is evaluated.

The body of a closure is evaluated in a new frame inside the scope of the closure, never that of
the caller.

Evaluation need not end, so it is bounded by fuel: the fuel bounds how deep evaluations nest and
how often each loop goes round. Fuel that suffices does not show in the result.
-/

namespace PocketLisp

/-- Evaluates arguments from left to right. -/
def evalAll (ev : Expr → Eval Value) : List Expr → Eval (List Value)
  | [] => pure []
  | e :: es => do
    let v ← ev e
    let vs ← evalAll ev es
    return v :: vs

/-- Evaluates expressions in order. The last one gives the value. -/
def evalLast (ev : Expr → Eval Value) : Expr → List Expr → Eval Value
  | e, [] => ev e
  | e, e' :: es => do
    let _ ← ev e
    evalLast ev e' es

/-- Goes round a loop at most `rounds` times, as long as the condition is true. The value is the
empty list. -/
def evalWhile (condition body : Eval Value) : (rounds : Nat) → Eval Value
  | 0 => .outOfFuel
  | rounds + 1 => do
    let v ← condition
    if v.isTruthy then
      let _ ← body
      evalWhile condition body rounds
    else
      return .nil

/-- Evaluates a special form in a scope. -/
def evalSpecial (ev : Expr → Eval Value) (rounds : Nat) (scope : FrameId) :
    Keyword → List Expr → Eval Value
  | .branch, [condition, thenExpr, elseExpr] => do
    let v ← ev condition
    if v.isNil then ev elseExpr else ev thenExpr
  | .loop, [condition, body] => evalWhile (ev condition) (ev body) rounds
  | .assign, [.var name, e] => do
    let v ← ev e
    Eval.assign scope name v
    return v
  | .sequence, e :: es => evalLast ev e es
  | keyword, args =>
    .fail (.internal s!"malformed {keyword.text} with {args.length} argument(s)")

/-- Whether a closure takes this many arguments. Every formal counts, also one that repeats
another. -/
def Closure.checkArity (c : Closure) (count : Nat) : Except Error Unit :=
  if c.formals.length = count then .ok ()
  else .error (.closureArity c.formals.length count)

/-- Applies a closure to values. Of formals with the same name the last one counts. -/
def applyClosure (evalIn : FrameId → Expr → Eval Value) (c : Closure) (args : List Value) :
    Eval Value := do
  Eval.ofExcept (c.checkArity args.length)
  let frame ← Eval.newFrame (.ofPairs (c.formals.zip args)) c.scope
  evalIn frame c.body

/-- Calls the value of an operator with arguments that are yet to be evaluated in a scope. -/
def evalCall (evalIn : FrameId → Expr → Eval Value) (scope : FrameId) (operator : Value)
    (args : List Expr) : Eval Value := do
  match operator with
  | .primitive p =>
    Eval.ofExcept (p.checkArity args.length)
    let values ← evalAll (evalIn scope) args
    Eval.primitive p values
  | .closure id =>
    match ← Eval.closure? id with
    | some c =>
      Eval.ofExcept (c.checkArity args.length)
      let values ← evalAll (evalIn scope) args
      applyClosure evalIn c values
    | none => .fail (.notCallable operator.text)
  | _ => .fail (.notCallable operator.text)

/-- The value of an expression in a scope. -/
def eval : (fuel : Nat) → FrameId → Expr → Eval Value
  | 0, _, _ => .outOfFuel
  | _ + 1, _, .literal value => pure value
  | _ + 1, scope, .var name => Eval.lookup scope name
  | _ + 1, scope, .lambda formals body => Eval.newClosure formals body scope
  | fuel + 1, scope, .special keyword args =>
    evalSpecial (eval fuel scope) fuel scope keyword args
  | fuel + 1, scope, .call operator args => do
    let f ← eval fuel scope operator
    evalCall (eval fuel) scope f args

end PocketLisp
