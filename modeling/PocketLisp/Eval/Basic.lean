import PocketLisp.Primitive.Apply
import PocketLisp.Store

/-!
# Computations

Evaluation reads and changes the store and writes to a sink. It ends with a value or with an
error, and both leave a machine behind: what was done before an error stays done.

## Main definitions

- `Machine` — the store and the output sink
- `Outcome` — how a computation ends: with a value, with an error, or not within its fuel
- `Eval` — computations
- `Eval.lookup`, `Eval.assign`, `Eval.newClosure`, `Eval.newFrame`, `Eval.closure?`,
  `Eval.primitive` — the computations that touch the machine
-/

namespace PocketLisp

/-- The store and the output sink. -/
structure Machine where
  store : Store
  out : Sink
  deriving Inhabited

/-- How a computation ends. -/
inductive Outcome (α : Type) where
  | value (a : α) (m : Machine)
  | error (e : Error) (m : Machine)
  /-- The computation needs more fuel than it was given, and so has no result. -/
  | outOfFuel
  deriving Inhabited

/-- A computation with a result in `α`. -/
def Eval (α : Type) : Type := Machine → Outcome α

namespace Eval

variable {α β : Type}

/-- The computation that only gives a result. -/
@[always_inline, inline]
protected def pure (a : α) : Eval α := fun m => .value a m

/-- One computation after another; an error ends both. -/
@[always_inline, inline]
protected def bind (x : Eval α) (f : α → Eval β) : Eval β := fun m =>
  match x m with
  | .value a m => f a m
  | .error e m => .error e m
  | .outOfFuel => .outOfFuel

instance : Monad Eval where
  pure := Eval.pure
  bind := Eval.bind

theorem bind_apply (x : Eval α) (f : α → Eval β) (m : Machine) :
    (x >>= f) m =
      match x m with
      | .value a m => f a m
      | .error e m => .error e m
      | .outOfFuel => .outOfFuel := rfl

/-- The computation that fails. -/
def fail (e : Error) : Eval α := fun m => .error e m

/-- The computation that does not end within its fuel. -/
def outOfFuel : Eval α := fun _ => .outOfFuel

/-- A result or an error that was found without the machine. -/
def ofExcept : Except Error α → Eval α
  | .ok a => pure a
  | .error e => fail e

/-- The value of a name in a scope. -/
def lookup (scope : FrameId) (name : String) : Eval Value := fun m =>
  let (value, store) := m.store.lookup scope name
  .value value { m with store }

/-- Gives a name a value in a scope. -/
def assign (scope : FrameId) (name : String) (value : Value) : Eval Unit := fun m =>
  .value () { m with store := m.store.assign scope name value }

/-- Makes a closure. -/
def newClosure (formals : List String) (body : Expr) (scope : FrameId) : Eval Value := fun m =>
  let (id, store) := m.store.newClosure formals body scope
  .value (.closure id) { m with store }

/-- Makes a frame inside a scope. -/
def newFrame (bindings : Bindings) (scope : FrameId) : Eval FrameId := fun m =>
  let (id, store) := m.store.newFrame bindings (some scope)
  .value id { m with store }

/-- The closure at a place. -/
def closure? (id : ClosureId) : Eval (Option Closure) := fun m =>
  .value m.store.closures[id]? m

/-- Applies a primitive operation. -/
def primitive (p : Primitive) (args : List Value) : Eval Value := fun m =>
  match p.apply args m.out with
  | (.ok v, out) => .value v { m with out }
  | (.error e, out) => .error e { m with out }

end Eval

end PocketLisp
