import PocketLisp.Session

/-!
# Conversations

A conversation reads forms from a stream, evaluates them and writes each result, or the error in
its place, on a line of its own.

## Main definitions

- `Conversation` — a stream, a session and a console
- `Conversation.run` — goes on until `quit` or the end of the input
- `Conversation.runInteractive` — the same, and then ends the line

## Design notes

A read that fails ends the conversation, and so does a result that cannot be written.
-/

namespace PocketLisp

/-- Why a conversation ended. -/
inductive Ending where
  | quit
  | endOfInput
  deriving DecidableEq, Inhabited

/-- A stream of tokens, the session that evaluates its forms, and the console. -/
structure Conversation where
  stream : TokenStream
  session : Session
  console : Console
  deriving Inhabited

namespace Conversation

/-- Reads, evaluates and answers forms until `quit` or the end of the input. -/
def run (fuel : Nat) (c : Conversation) : Option (Except Failure Ending × Conversation) :=
  match _h : c.stream.readForm c.console with
  | (.error f, stream, console) => some (.error f, ⟨stream, c.session, console⟩)
  | (.ok none, stream, console) => some (.ok .endOfInput, ⟨stream, c.session, console⟩)
  | (.ok (some .quit), stream, console) => some (.ok .quit, ⟨stream, c.session, console⟩)
  | (.ok (some (.tokens ts)), stream, ⟨out, prompts⟩) =>
    match c.session.evalForm fuel ts out with
    | none => none
    | some (result, session, out) =>
      match out.deliver (result.text ++ "\n") with
      | (.error f, out) => some (.error f, ⟨stream, session, ⟨out, prompts⟩⟩)
      | (.ok _, out) => run fuel ⟨stream, session, ⟨out, prompts⟩⟩
termination_by c.stream.remaining
decreasing_by exact TokenStream.remaining_lt_of_readForm _h

/-- Like `run`, and then ends the line, so that what is written next starts on a new one. -/
def runInteractive (fuel : Nat) (c : Conversation) :
    Option (Except Failure Ending × Conversation) :=
  match c.run fuel with
  | none => none
  | some (.error f, c) => some (.error f, c)
  | some (.ok ending, ⟨stream, session, ⟨out, prompts⟩⟩) =>
    match out.deliver "\n" with
    | (.error f, out) => some (.error f, ⟨stream, session, ⟨out, prompts⟩⟩)
    | (.ok _, out) => some (.ok ending, ⟨stream, session, ⟨out, prompts⟩⟩)

end Conversation

end PocketLisp
