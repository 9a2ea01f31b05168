import PocketLisp.Eval

/-!
# Properties that evaluation inherits from its operations

Evaluation puts computations together out of a few that touch the machine. A property of
computations that these have, and that one computation after another has as soon as both have it,
is a property of evaluation.

## Main definitions

- `Inherited` — such a property

## Main statements

- `Inherited.holds_eval` — evaluation has it, for any amount of fuel

## Design notes

Nothing is assumed of code, values or scopes: where a property depends on them, `Invariant` is of
use.
-/

namespace PocketLisp

/-- A property of computations that one made of others has as soon as they have it. -/
structure Inherited where
  holds : ∀ {α : Type}, Eval α → Prop
  pure : ∀ {α : Type} (a : α), holds (pure a : Eval α)
  fail : ∀ {α : Type} (e : Error), holds (Eval.fail e : Eval α)
  outOfFuel : ∀ {α : Type}, holds (Eval.outOfFuel : Eval α)
  bind : ∀ {α β : Type} {x : Eval α} {f : α → Eval β}, holds x → (∀ a, holds (f a)) →
    holds (x >>= f)
  lookup : ∀ scope name, holds (Eval.lookup scope name)
  assign : ∀ scope name v, holds (Eval.assign scope name v)
  newClosure : ∀ formals body scope, holds (Eval.newClosure formals body scope)
  newFrame : ∀ b scope, holds (Eval.newFrame b scope)
  closure? : ∀ id, holds (Eval.closure? id)
  primitive : ∀ p args, holds (Eval.primitive p args)

namespace Inherited

variable (P : Inherited) {ev : Expr → Eval Value} {evalIn : FrameId → Expr → Eval Value}

theorem holds_ofExcept {α : Type} (r : Except Error α) : P.holds (Eval.ofExcept r) := by
  cases r with
  | ok a => exact P.pure a
  | error e => exact P.fail e

theorem holds_evalAll (hev : ∀ e, P.holds (ev e)) (es : List Expr) : P.holds (evalAll ev es) := by
  induction es with
  | nil => exact P.pure []
  | cons e es ih => exact P.bind (hev e) fun v => P.bind ih fun vs => P.pure (v :: vs)

theorem holds_evalLast (hev : ∀ e, P.holds (ev e)) (e : Expr) (es : List Expr) :
    P.holds (evalLast ev e es) := by
  induction es generalizing e with
  | nil => exact hev e
  | cons e' es ih => exact P.bind (hev e) fun _ => ih e'

theorem holds_evalWhile {condition body : Eval Value} (hcondition : P.holds condition)
    (hbody : P.holds body) (rounds : Nat) : P.holds (evalWhile condition body rounds) := by
  induction rounds with
  | zero => exact P.outOfFuel
  | succ rounds ih =>
    refine P.bind hcondition fun v => ?_
    split
    · exact P.bind hbody fun _ => ih
    · exact P.pure Value.nil

theorem holds_evalSpecial (hev : ∀ e, P.holds (ev e)) (rounds : Nat) (scope : FrameId)
    (keyword : Keyword) (args : List Expr) :
    P.holds (evalSpecial ev rounds scope keyword args) := by
  unfold evalSpecial
  split
  · next condition thenExpr elseExpr =>
    refine P.bind (hev condition) fun v => ?_
    split
    · exact hev elseExpr
    · exact hev thenExpr
  · next condition body => exact P.holds_evalWhile (hev condition) (hev body) rounds
  · next name e => exact P.bind (hev e) fun v => P.bind (P.assign scope name v) fun _ => P.pure v
  · next e es => exact P.holds_evalLast hev e es
  · exact P.fail _

theorem holds_applyClosure (hev : ∀ i e, P.holds (evalIn i e)) (c : Closure) (args : List Value) :
    P.holds (applyClosure evalIn c args) :=
  P.bind (P.holds_ofExcept _) fun _ => P.bind (P.newFrame _ _) fun frame => hev frame c.body

theorem holds_evalCall (hev : ∀ i e, P.holds (evalIn i e)) (scope : FrameId) (operator : Value)
    (args : List Expr) : P.holds (evalCall evalIn scope operator args) := by
  have hargs := P.holds_evalAll (hev scope) args
  unfold evalCall
  split
  · exact P.bind (P.holds_ofExcept _) fun _ => P.bind hargs fun values => P.primitive _ values
  · refine P.bind (P.closure? _) fun found => ?_
    split
    · next c =>
      refine P.bind (P.holds_ofExcept _) fun _ => P.bind hargs fun values => ?_
      exact P.holds_applyClosure hev c values
    · exact P.fail _
  · exact P.fail _

/-- Evaluation has every property that it inherits, for any amount of fuel. -/
theorem holds_eval (fuel : Nat) (scope : FrameId) (e : Expr) : P.holds (eval fuel scope e) := by
  induction fuel generalizing scope e with
  | zero => exact P.outOfFuel
  | succ fuel ih =>
    cases e with
    | literal v => exact P.pure v
    | var name => exact P.lookup scope name
    | lambda formals body => exact P.newClosure formals body scope
    | special keyword args => exact P.holds_evalSpecial (ih scope) fuel scope keyword args
    | call operator args =>
      exact P.bind (ih scope operator) fun f => P.holds_evalCall ih scope f args

end Inherited

end PocketLisp
