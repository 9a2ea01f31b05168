/-!
# Errors

What can go wrong while a form is read or evaluated, and the wording of each error. An error
ends its own form only.

## Main definitions

- `Error` — the causes
- `Error.message` — the wording
- `LocatedError` — an error together with the line on which its form started
- `Failure` — why a source of lines or a sink could not do its work
-/

namespace PocketLisp

/-- Why a form has no value. Values and tokens appear in an error by their text. -/
inductive Error where
  /-- No rule of the grammar matches the form. -/
  | unparsable
  /-- The form ends before its tokens do; the text is that of the first token left over. -/
  | trailing (token : String)
  /-- A primitive is applied to the wrong number of arguments. -/
  | arity (callee : String) (expected got : Nat)
  /-- A closure is applied to the wrong number of arguments. -/
  | closureArity (expected got : Nat)
  /-- A primitive is applied to an argument of the wrong kind. -/
  | wrongType (detail : String)
  /-- A list would end in something other than the empty list. -/
  | malformedList (tail : String)
  /-- The operator of a call is neither a primitive nor a closure. -/
  | notCallable (operator : String)
  | divisionByZero
  /-- The exact result does not fit in 64 bits. -/
  | overflow (operation : String)
  /-- The output sink refused a text. -/
  | output (reason : String)
  /-- An expression tree that no form is read as. -/
  | internal (detail : String)
  deriving DecidableEq, Inhabited

/-- The wording of an error. -/
def Error.message : Error → String
  | unparsable => "syntax error"
  | trailing token => s!"found extra token beyond end of input: {token}"
  | arity callee expected got => s!"{callee} expects {expected} argument(s), got {got}"
  | closureArity expected got =>
    s!"closure argument mismatch: expected {expected}, got {got}"
  | wrongType detail => s!"type error: {detail}"
  | malformedList tail => s!"second argument in cons not list or nil: {tail}"
  | notCallable operator => s!"not callable: {operator}"
  | divisionByZero => "division by zero"
  | overflow operation => s!"integer overflow in {operation}"
  | output reason => s!"output error: {reason}"
  | internal detail => s!"internal error: {detail}"

/-- An error together with the line on which the failing form started. -/
structure LocatedError where
  line : Nat
  error : Error
  deriving DecidableEq, Inhabited

/-- The wording of an error with its line. -/
def LocatedError.message (e : LocatedError) : String :=
  match e.error with
  | .unparsable => s!"syntax error on input that started on line {e.line}"
  | error => s!"{error.message} (on input that started on line {e.line})"

/-- Why a source of lines or a sink could not do its work. -/
inductive Failure where
  /-- A sink takes no more bytes. -/
  | sinkClosed
  /-- A sink cannot pass on what it holds. -/
  | flushFailed
  /-- The bytes of a line are not UTF-8. -/
  | notUtf8
  /-- A failure that the source itself reports. -/
  | reported (reason : String)
  /-- No token starts at this place. -/
  | unreadable (line column : Nat)
  deriving DecidableEq, Inhabited

/-- The wording of a failure. -/
def Failure.message : Failure → String
  | sinkClosed => "sink closed"
  | flushFailed => "flush failed"
  | notUtf8 => "stream did not contain valid UTF-8"
  | reported reason => reason
  | unreadable line column => s!"unreadable input at {line}:{column}"

/-- A failing sink makes the evaluation that writes to it fail. -/
def Failure.toError (f : Failure) : Error :=
  .output f.message

end PocketLisp
