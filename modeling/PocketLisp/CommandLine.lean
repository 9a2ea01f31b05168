import PocketLisp.Conversation

/-!
# The command line

The program: it evaluates the forms of a source file, if one is given, and then converses over
its standard input.

## Main definitions

- `Transcript` — what a run of the program writes, and its exit code
- `CommandLine.run` — a run of the program

## Design notes

The run is a function of the arguments, of what opening the source file gives, and of the bytes of
the standard input. Prompts are written to the standard output, between the results. Where a form
does not end within the fuel there is no transcript.
-/

namespace PocketLisp

/-- What a run of the program writes, and its exit code. -/
structure Transcript where
  exitCode : Nat
  output : String
  complaint : String
  deriving Inhabited

namespace CommandLine

/-- The text that explains the program, line by line. -/
def helpLines : List String :=
  ["Usage: schemelet [SOURCE]",
   "",
   "Evaluates the forms in SOURCE, if given, then reads forms from standard input.",
   "A line holding only `quit` ends the current input.",
   "",
   "Special forms: if, while, set, begin, lambda, 'quote",
   "Primitives:    + - * / < > = cons car cdr print",
   "               number? symbol? list? null? primop? closure?",
   "",
   "Set RUST_LOG (for example RUST_LOG=schemelet=debug) to trace evaluation on stderr."]

/-- The text that explains the program. -/
def help : String := String.join (helpLines.map (· ++ "\n"))

/-- The text that the program starts with. -/
def banner : String :=
  "schemelet 0.1.0\nType quit or Ctrl+D to exit.\n"

/-- The transcript of a run that fails after it wrote to `out`. -/
def failed (out : Sink) (problem : String) : Transcript :=
  ⟨1, out.text, s!"Error: {problem}\n"⟩

/-- A problem with the reason for it. -/
def withCause (problem cause : String) : String :=
  s!"{problem}\n\nCaused by:\n    {cause}"

/-- Converses over the standard input. -/
def converse (fuel : Nat) (stdin : ByteArray) (session : Session) (console : Console) :
    Option Transcript :=
  let stream := TokenStream.ofSource (.ofBytes stdin .onOutput)
  match Conversation.runInteractive fuel ⟨stream, session, console⟩ with
  | none => none
  | some (.error f, c) => some (failed c.console.out f.message)
  | some (.ok _, c) => some ⟨0, c.console.out.text, ""⟩

/-- Whether the arguments ask for the help text. -/
def asksForHelp (args : List String) : Bool :=
  args.any fun arg => arg == "-h" || arg == "--help"

/-- Whether a run with these arguments can get as far as its standard input. -/
def converses (args : List String) : Bool :=
  !asksForHelp args && args.length ≤ 1

/-- Runs the program. `source` tells what opening the source file gives: its lines, or the reason
why it cannot be opened. -/
def run (fuel : Nat) (args : List String) (source : String → Except String LineSource)
    (stdin : ByteArray) : Option Transcript :=
  if asksForHelp args then
    some ⟨0, help, ""⟩
  else
    let console : Console := ⟨(Sink.unlimited.write banner).2, .unlimited⟩
    match args with
    | [] => converse fuel stdin .new console
    | [path] =>
      match source path with
      | .error reason =>
        some (failed console.out (withCause s!"failed to open {path}" reason))
      | .ok lines =>
        match Conversation.run fuel ⟨.ofSource lines, .new, console⟩ with
        | none => none
        | some (.error f, c) =>
          some (failed c.console.out (withCause s!"failed to read {path}" f.message))
        | some (.ok _, c) => converse fuel stdin c.session c.console
    | _ =>
      some (failed .unlimited s!"expected at most one source file, got {args.length}")

end CommandLine

end PocketLisp
