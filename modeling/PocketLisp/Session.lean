import PocketLisp.Eval
import PocketLisp.Input.Form
import PocketLisp.Parse

/-!
# Sessions

A session evaluates forms one after another. What one form assigns, the next ones find.

## Main definitions

- `Session` — the store and its global frame
- `Session.evalForm` — one form
- `Session.evalSource` — the forms of a text

## Design notes

Each form is evaluated in an empty frame of its own inside the global frame. An error ends the
form, not the session, and what the form had done stays done. Where a form does not end within
the fuel there is no answer at all.
-/

namespace PocketLisp

/-- A store and its global frame. -/
structure Session where
  store : Store
  global : FrameId
  deriving Inhabited

/-- What a form comes to. -/
abbrev FormResult := Except LocatedError Value

/-- What is shown of a form's result: the value or the error. -/
def FormResult.text : FormResult → String
  | .ok v => v.text
  | .error e => e.message

namespace Session

/-- A session whose global frame holds the primitive operations. -/
def new : Session :=
  let (global, store) := Store.empty.newFrame Store.primitiveBindings none
  ⟨store, global⟩

/-- The line of a form: that of its first token, or 0 if it has none. -/
def formLine : List Token → Nat
  | [] => 0
  | t :: _ => t.line

/-- Reads and evaluates one form. -/
def evalForm (fuel : Nat) (tokens : List Token) :
    Session → Sink → Option (FormResult × Session × Sink)
  | ⟨store, global⟩, out =>
    match parse (tokens.map Token.lexeme) with
    | .error e => some (.error ⟨formLine tokens, e⟩, ⟨store, global⟩, out)
    | .ok e =>
      let (frame, store) := store.newFrame [] (some global)
      match eval fuel frame e ⟨store, out⟩ with
      | .value v ⟨store, out⟩ => some (.ok v, ⟨store, global⟩, out)
      | .error e ⟨store, out⟩ => some (.error ⟨formLine tokens, e⟩, ⟨store, global⟩, out)
      | .outOfFuel => none

/-- Evaluates the forms of a stream up to `quit`, after those whose results, latest first, are
`seen`. A read that fails takes the place of all results. -/
def evalStreamAfter (fuel : Nat) (seen : List FormResult) (stream : TokenStream) (s : Session)
    (out : Sink) : Option (Except Failure (List FormResult) × Session × Sink) :=
  match _h : stream.readForm .unlimited with
  | (.error f, _, _) => some (.error f, s, out)
  | (.ok none, _, _) | (.ok (some .quit), _, _) => some (.ok seen.reverse, s, out)
  | (.ok (some (.tokens ts)), stream', _) =>
    match evalForm fuel ts s out with
    | none => none
    | some (result, s', out') => evalStreamAfter fuel (result :: seen) stream' s' out'
termination_by stream.remaining
decreasing_by exact TokenStream.remaining_lt_of_readForm _h

/-- Evaluates the forms of a text up to `quit`. -/
def evalSource (fuel : Nat) (text : String) (s : Session) (out : Sink) :
    Option (Except Failure (List FormResult) × Session × Sink) :=
  evalStreamAfter fuel [] (.ofSource (.ofString text .silent)) s out

end Session

end PocketLisp
