import PocketLisp.Primitive.Arithmetic
import PocketLisp.Sink
import PocketLisp.Value

/-!
# What the primitive operations do

## Main definitions

- `Primitive.run` — an operation on any list of arguments
- `Primitive.checkArity` — whether the number of arguments is right
- `Primitive.apply` — the operation, once the number of arguments was found right

## Design notes

Each operation takes its list of arguments apart by itself and so refuses a list of another
length on its own; the check that comes first makes sure that nothing else is found wrong before.
-/

namespace PocketLisp

namespace Primitive

/-- The two numbers that an arithmetic operation is applied to. -/
def twoNumbers (name : String) : List Value → Except Error (Word × Word)
  | [.number a, .number b] => .ok (a, b)
  | [a, b] => .error (.wrongType s!"{name} requires numbers, got {a.kind} and {b.kind}")
  | args => .error (.arity name 2 args.length)

/-- The one value that an operation is applied to. -/
def oneValue (name : String) : List Value → Except Error Value
  | [v] => .ok v
  | args => .error (.arity name 1 args.length)

/-- An operation with a number for its result. -/
def arithmetic (name : String) (op : Word → Word → Except Error Word) (args : List Value) :
    Except Error Value := do
  let (a, b) ← twoNumbers name args
  return .number (← op a b)

/-- A comparison of two numbers. -/
def comparison (name : String) (holds : Word → Word → Bool) (args : List Value) :
    Except Error Value := do
  let (a, b) ← twoNumbers name args
  return .ofBool (holds a b)

/-- A test of one value. -/
def test (name : String) (holds : Value → Bool) (args : List Value) : Except Error Value := do
  return .ofBool (holds (← oneValue name args))

/-- Whether two values are the same number, the same symbol, or both the empty list. Nothing else
counts as equal, and no kind of value is refused. -/
def same : Value → Value → Bool
  | .number a, .number b => a == b
  | .symbol a, .symbol b => a == b
  | .nil, .nil => true
  | _, _ => false

/-- Compares any two values. -/
def runEqual : List Value → Except Error Value
  | [a, b] => .ok (.ofBool (same a b))
  | args => .error (.arity "=" 2 args.length)

/-- Puts a value in front of a list. The list may not be anything else, so that every list ends
in the empty list. -/
def runCons : List Value → Except Error Value
  | [first, .pair a d] => .ok (.pair first (.pair a d))
  | [first, .nil] => .ok (.pair first .nil)
  | [_, tail] => .error (.malformedList tail.text)
  | args => .error (.arity "cons" 2 args.length)

/-- One half of a pair. -/
def half (name : String) (choose : Value → Value → Value) (args : List Value) :
    Except Error Value := do
  match ← oneValue name args with
  | .pair a d => return choose a d
  | v => throw (.wrongType s!"{name} requires a pair, got {v.kind}")

/-- Writes a value and a line end, and gives the value back. -/
def runPrint (args : List Value) (out : Sink) : Except Error Value × Sink :=
  match oneValue "print" args with
  | .error e => (.error e, out)
  | .ok v =>
    match out.write (v.text ++ "\n") with
    | (.ok _, out) => (.ok v, out)
    | (.error f, out) => (.error f.toError, out)

/-- Runs an operation on a list of arguments of any length. -/
def run (p : Primitive) (args : List Value) (out : Sink) : Except Error Value × Sink :=
  match p with
  | add => (arithmetic "+" Word.add? args, out)
  | sub => (arithmetic "-" Word.sub? args, out)
  | mul => (arithmetic "*" Word.mul? args, out)
  | div => (arithmetic "/" Word.floorDiv? args, out)
  | less => (comparison "<" (fun a b => decide (a < b)) args, out)
  | greater => (comparison ">" (fun a b => decide (b < a)) args, out)
  | equal => (runEqual args, out)
  | cons => (runCons args, out)
  | car => (half "car" (fun a _ => a) args, out)
  | cdr => (half "cdr" (fun _ d => d) args, out)
  | isNumber => (test "number?" (fun v => v matches .number _) args, out)
  | isSymbol => (test "symbol?" (fun v => v matches .symbol _) args, out)
  | isList => (test "list?" (fun v => v matches .pair ..) args, out)
  | isNull => (test "null?" Value.isNil args, out)
  | isPrimitive => (test "primop?" (fun v => v matches .primitive _) args, out)
  | isClosure => (test "closure?" (fun v => v matches .closure _) args, out)
  | print => runPrint args out

/-- Whether the operation takes this many arguments. -/
def checkArity (p : Primitive) (count : Nat) : Except Error Unit :=
  if count = p.arity then .ok () else .error (.arity p.name p.arity count)

/-- Applies an operation to values. -/
def apply (p : Primitive) (args : List Value) (out : Sink) : Except Error Value × Sink :=
  match p.checkArity args.length with
  | .error e => (.error e, out)
  | .ok _ => p.run args out

end Primitive

end PocketLisp
