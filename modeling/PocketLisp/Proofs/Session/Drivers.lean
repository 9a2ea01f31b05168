import PocketLisp.Proofs.Eval.Output
import PocketLisp.Proofs.Input.Silent
import PocketLisp.Proofs.Session.Reached

/-!
# Two ways to evaluate a text

A session evaluates the forms of a text and gives their results; a conversation over the same text
writes them. Both evaluate the same forms one after another, with the same results and the same
output in between, and leave the same session.

## Main definitions

- `Session.evalEach` — the results of forms up to `quit`, whatever the sink is
- `Session.evalForms` — what some forms up to `quit` come to, and what each of them prints
- `FormResult.answerLine` — the line that answers a form
- `printed`, `transcript` — what is written while forms are evaluated, without and with these lines
- `Conversation.Turns` — a conversation gives some results, one after another

## Main statements

- `Session.evalStreamAfter_eq_evalEach` — the results for a stream are those of its forms
- `Session.evalStreamAfter_of_handsForms`, `Conversation.run_of_handsForms` — either way is
  `Session.evalForms`
- `Conversation.turns_of_handsForms` — a conversation gives the results of its forms
- `evalSource_agrees_run` — so they agree
-/

namespace PocketLisp

namespace Session

/-- The results of forms up to `quit`, one after another, and the session and the sink that the last
one leaves. -/
def evalEach (fuel : Nat) : List Form → Session → Sink → Option (List FormResult × Session × Sink)
  | [], s, out | .quit :: _, s, out => some ([], s, out)
  | .tokens ts :: forms, s, out =>
    (s.evalForm fuel ts out).bind fun (r, s₁, out₁) =>
      (evalEach fuel forms s₁ out₁).map fun (rs, s', out') => (r :: rs, s', out')

/-- What forms up to `quit` come to, each with what it writes to a sink of its own, and the session
that the last one leaves. -/
def evalForms (fuel : Nat) : List Form → Session → Option (List (FormResult × ByteArray) × Session)
  | [], s | .quit :: _, s => some ([], s)
  | .tokens ts :: forms, s => do
    let (r, s, out) ← s.evalForm fuel ts .unlimited
    let (answers, s) ← evalForms fuel forms s
    return ((r, out.written) :: answers, s)

end Session

/-- The line that answers a form: the value as it is printed, or the message of the error with the
line that the form started on. -/
def FormResult.answerLine : FormResult → String
  | .ok v => v.text ++ "\n"
  | .error ⟨line, e⟩ =>
    if e = .unparsable then
      "syntax error on input that started on line " ++ toString line ++ "\n"
    else e.message ++ " (on input that started on line " ++ toString line ++ ")" ++ "\n"

theorem FormResult.answerLine_eq (r : FormResult) : r.answerLine = r.text ++ "\n" := by
  rcases r with ⟨line, e⟩ | v
  · cases e with
    | unparsable => rfl
    | _ => rfl
  · rfl

/-- All that the forms themselves write. -/
def printed : List (FormResult × ByteArray) → ByteArray
  | [] => .empty
  | (_, bytes) :: answers => bytes ++ printed answers

/-- All that the forms write, after each of them its result on a line of its own. -/
def transcript : List (FormResult × ByteArray) → ByteArray
  | [] => .empty
  | (r, bytes) :: answers => bytes ++ r.answerLine.toUTF8 ++ transcript answers

variable {fuel : Nat} {stream stream' : TokenStream} {forms : List Form} {ts : List Token}
  {s s' : Session} {c : Console}

/-! ### Results for a text -/

namespace Session

variable {seen : List FormResult} {out : Sink}

theorem evalStreamAfter_of_end {a : Option Form} (ha : ∀ ts, a ≠ some (.tokens ts))
    (h : stream.readForm .unlimited = (.ok a, stream', c)) :
    evalStreamAfter fuel seen stream s out = some (.ok seen.reverse, s, out) := by
  rw [evalStreamAfter]
  split
  · next h' => rw [h] at h'; cases h'
  · rfl
  · rfl
  · next h' =>
    rw [h] at h'
    cases h'
    exact absurd rfl (ha _)

theorem evalStreamAfter_of_tokens
    (h : stream.readForm .unlimited = (.ok (some (.tokens ts)), stream', c)) :
    evalStreamAfter fuel seen stream s out =
      (s.evalForm fuel ts out).bind fun (r, s', out') =>
        evalStreamAfter fuel (r :: seen) stream' s' out' := by
  rw [evalStreamAfter]
  split
  · next h' => rw [h] at h'; cases h'
  · next h' => rw [h] at h'; cases h'
  · next h' => rw [h] at h'; cases h'
  · next h' =>
    rw [h] at h'
    cases h'
    split
    · next heval => rw [heval]; rfl
    · next heval => rw [heval]; rfl

theorem evalForms_tokens :
    s.evalForms fuel (.tokens ts :: forms) =
      (s.evalForm fuel ts .unlimited).bind fun (r, s₁, out) =>
        (s₁.evalForms fuel forms).map fun (answers, s') => ((r, out.written) :: answers, s') := by
  rw [evalForms]
  rcases s.evalForm fuel ts .unlimited with - | ⟨r, s₁, out⟩
  · rfl
  · show (s₁.evalForms fuel forms).bind _ = (s₁.evalForms fuel forms).map _
    cases s₁.evalForms fuel forms <;> rfl

example :
    (new.evalForms 1 [.tokens [⟨.atom "7", 1, 1⟩], .quit, .tokens [⟨.atom "8", 3, 1⟩]]).map
      (fun a => a.1.map Prod.fst) = some [.ok (.number 7)] := rfl

/-- The results for a stream are those of its forms. -/
theorem evalStreamAfter_eq_evalEach (h : stream.HandsForms forms) (seen : List FormResult)
    (s : Session) (out : Sink) :
    evalStreamAfter fuel seen stream s out =
      (evalEach fuel forms s out).map fun (rs, s', out') =>
        (.ok (seen.reverse ++ rs), s', out') := by
  induction h generalizing seen s out with
  | done hread => simp [evalStreamAfter_of_end (by simp) (hread _), evalEach]
  | @form _ _ form forms hread _ ih =>
    cases form with
    | quit => simp [evalStreamAfter_of_end (by simp) (hread _), evalEach]
    | tokens ts =>
      rw [evalStreamAfter_of_tokens (hread _), evalEach]
      rcases s.evalForm fuel ts out with - | ⟨r, s₁, out₁⟩
      · rfl
      · simp [ih, Function.comp_def]

/-- What forms write is appended to a sink that never fails. -/
theorem evalEach_holding (forms : List Form) (s : Session) (before : ByteArray) :
    evalEach fuel forms s (.holding before) =
      (s.evalForms fuel forms).map fun (answers, s') =>
        (answers.map Prod.fst, s', .holding (before ++ printed answers)) := by
  induction forms generalizing s before with
  | nil => simp [evalEach, evalForms, printed]
  | cons form forms ih =>
    cases form with
    | quit => simp [evalEach, evalForms, printed]
    | tokens ts =>
      rw [evalEach, evalForm_holding, evalForms_tokens]
      rcases s.evalForm fuel ts .unlimited with - | ⟨r, s₁, out⟩
      · rfl
      · simp only [Option.map_some, Option.bind_some, ih]
        simp [printed, ByteArray.append_assoc, Function.comp_def]

/-- Evaluating the forms of a stream is evaluating them one after another. What they write is
appended to the sink. -/
theorem evalStreamAfter_of_handsForms (h : stream.HandsForms forms) (seen : List FormResult)
    (s : Session) (before : ByteArray) :
    evalStreamAfter fuel seen stream s (.holding before) =
      (s.evalForms fuel forms).map fun (answers, s') =>
        (.ok (seen.reverse ++ answers.map Prod.fst), s', .holding (before ++ printed answers)) := by
  rw [evalStreamAfter_eq_evalEach h, evalEach_holding, Option.map_map]
  rfl

end Session

/-! ### Conversations -/

/-- How a conversation ends over these forms. -/
def Ending.after (forms : List Form) : Ending := if .quit ∈ forms then .quit else .endOfInput

namespace Conversation

variable {session : Session} {console : Console} {out prompts : Sink}

theorem run_of_none (h : stream.readForm console = (.ok none, stream', c)) :
    run fuel ⟨stream, session, console⟩ = some (.ok .endOfInput, ⟨stream', session, c⟩) := by
  rw [run]
  split
  · next h' => rw [h] at h'; cases h'
  · next h' => rw [h] at h'; cases h'; rfl
  · next h' => rw [h] at h'; cases h'
  · next h' => rw [h] at h'; cases h'

theorem run_of_quit (h : stream.readForm console = (.ok (some .quit), stream', c)) :
    run fuel ⟨stream, session, console⟩ = some (.ok .quit, ⟨stream', session, c⟩) := by
  rw [run]
  split
  · next h' => rw [h] at h'; cases h'
  · next h' => rw [h] at h'; cases h'
  · next h' => rw [h] at h'; cases h'; rfl
  · next h' => rw [h] at h'; cases h'

/-- After a form, its result is written, and the conversation goes on if that succeeds. -/
theorem run_of_form
    (h : stream.readForm ⟨out, prompts⟩ = (.ok (some (.tokens ts)), stream', ⟨out, prompts⟩)) :
    run fuel ⟨stream, session, ⟨out, prompts⟩⟩ =
      (session.evalForm fuel ts out).bind fun (r, s', out) =>
        match out.deliver (r.text ++ "\n") with
        | (.error f, out) => some (.error f, ⟨stream', s', ⟨out, prompts⟩⟩)
        | (.ok _, out) => run fuel ⟨stream', s', ⟨out, prompts⟩⟩ := by
  rw [run]
  split
  · next h' => rw [h] at h'; cases h'
  · next h' => rw [h] at h'; cases h'
  · next h' => rw [h] at h'; cases h'
  · next h' =>
    rw [h] at h'
    cases h'
    rcases session.evalForm fuel ts out with - | ⟨r, s₁, out₁⟩
    · rfl
    · rfl

/-- Writing the result to a sink that never fails does not end the conversation. -/
theorem run_of_tokens {before : ByteArray}
    (h : stream.readForm ⟨.holding before, prompts⟩ =
      (.ok (some (.tokens ts)), stream', ⟨.holding before, prompts⟩)) :
    run fuel ⟨stream, session, ⟨.holding before, prompts⟩⟩ =
      (session.evalForm fuel ts .unlimited).bind fun (r, s', out) =>
        run fuel ⟨stream', s', ⟨.holding (before ++ out.written ++ r.answerLine.toUTF8),
          prompts⟩⟩ := by
  rw [run_of_form h, Session.evalForm_holding]
  rcases session.evalForm fuel ts .unlimited with - | ⟨r, s₁, out⟩
  · rfl
  · simp only [Option.map_some, Option.bind_some, Sink.deliver_holding, r.answerLine_eq]

/-- A conversation over a stream evaluates its forms one after another. What they write, and after
each of them its result, is appended to the sink. -/
theorem run_of_handsForms (h : stream.HandsForms forms) (s : Session) (before : ByteArray)
    (prompts : Sink) :
    ∃ left, run fuel ⟨stream, s, ⟨.holding before, prompts⟩⟩ =
      (s.evalForms fuel forms).map fun (answers, s') =>
        (.ok (.after forms), ⟨left, s', ⟨.holding (before ++ transcript answers), prompts⟩⟩) := by
  induction h generalizing s before with
  | done hread =>
    exact ⟨_, by simp [run_of_none (hread _), Session.evalForms, transcript, Ending.after]; rfl⟩
  | @form _ _ form forms hread _ ih =>
    cases form with
    | quit =>
      exact ⟨_, by simp [run_of_quit (hread _), Session.evalForms, transcript, Ending.after]; rfl⟩
    | tokens ts =>
      rw [run_of_tokens (hread _), Session.evalForms_tokens]
      rcases s.evalForm fuel ts .unlimited with - | ⟨r, s₁, out⟩
      · exact ⟨stream, rfl⟩
      · obtain ⟨left, hrun⟩ := ih s₁ (before ++ out.written ++ r.answerLine.toUTF8)
        refine ⟨left, ?_⟩
        show run _ _ = _
        rw [hrun]
        simp [transcript, Ending.after, ByteArray.append_assoc, Function.comp_def]

/-- A turn of a conversation. The next form of its stream is read and evaluated, and the line that
answers it is written. The conversation comes to what it comes to from there on. -/
inductive Turn (fuel : Nat) (c : Conversation) : FormResult → Conversation → Prop
  | mk {ts : List Token} {stream : TokenStream} {s : Session} {out out' out'' prompts : Sink}
      {r : FormResult} :
      c.stream.readForm c.console = (.ok (some (.tokens ts)), stream, ⟨out, prompts⟩) →
      c.session.evalForm fuel ts out = some (r, s, out') →
      out'.deliver r.answerLine = (.ok (), out'') →
      c.run fuel = run fuel ⟨stream, s, ⟨out'', prompts⟩⟩ →
      Turn fuel c r ⟨stream, s, ⟨out'', prompts⟩⟩

/-- Turns of a conversation, one after another, with their results. -/
inductive Turns (fuel : Nat) : Conversation → List FormResult → Conversation → Prop
  | nil {c : Conversation} : Turns fuel c [] c
  | cons {c c₁ c' : Conversation} {r : FormResult} {rs : List FormResult} :
      Turn fuel c r c₁ → Turns fuel c₁ rs c' → Turns fuel c (r :: rs) c'

theorem turn_of_tokens {before : ByteArray} {r : FormResult}
    (h : stream.readForm ⟨.holding before, prompts⟩ =
      (.ok (some (.tokens ts)), stream', ⟨.holding before, prompts⟩))
    (heval : s.evalForm fuel ts .unlimited = some (r, s', out)) :
    Turn fuel ⟨stream, s, ⟨.holding before, prompts⟩⟩ r
      ⟨stream', s', ⟨.holding (before ++ out.written ++ r.answerLine.toUTF8), prompts⟩⟩ := by
  -- What the sink holds already makes no difference to the form.
  have hheld : s.evalForm fuel ts (.holding before) =
      some (r, s', .holding (before ++ out.written)) := by
    rw [Session.evalForm_holding, heval]
    rfl
  refine .mk h hheld (Sink.deliver_holding _ _) ?_
  rw [run_of_tokens h, heval]
  rfl

/-- A conversation over a stream gives the results of its forms, one in each turn. After that the
request to stop is read, or the end of the input. -/
theorem turns_of_handsForms (h : stream.HandsForms forms) {as : List (FormResult × ByteArray)}
    (before : ByteArray) (prompts : Sink) (heval : s.evalForms fuel forms = some (as, s')) :
    ∃ left, Turns fuel ⟨stream, s, ⟨.holding before, prompts⟩⟩ (as.map Prod.fst)
        ⟨left, s', ⟨.holding (before ++ transcript as), prompts⟩⟩ ∧
      ∀ c, (left.readForm c).1 = .ok (if .quit ∈ forms then some .quit else none) := by
  induction h generalizing s before as with
  | @done stream _ hread =>
    cases heval
    refine ⟨stream, ?_, fun c => by rw [hread]; rfl⟩
    rw [transcript, ByteArray.append_empty]
    exact .nil
  | @form stream _ form forms hread _ ih =>
    cases form with
    | quit =>
      cases heval
      refine ⟨stream, ?_, fun c => by simp [hread]⟩
      rw [transcript, ByteArray.append_empty]
      exact .nil
    | tokens ts =>
      rw [Session.evalForms_tokens, Option.bind_eq_some_iff] at heval
      obtain ⟨⟨r, s₁, out⟩, hform, hrest⟩ := heval
      obtain ⟨⟨rest, s₂⟩, hforms, heq⟩ := Option.map_eq_some_iff.1 hrest
      cases heq
      obtain ⟨left, hturns, hleft⟩ := ih (before ++ out.written ++ r.answerLine.toUTF8) hforms
      refine ⟨left, ?_, fun c => by simp [hleft]⟩
      rw [transcript, ← ByteArray.append_assoc, ← ByteArray.append_assoc]
      exact .cons (turn_of_tokens (hread _) hform) hturns

end Conversation

/-! ### Both ways -/

/-- The two ways to evaluate a text agree, on a sink that never fails. Both have a result when all
forms up to `quit` have one. Then the results for the text are those that the turns of the
conversation come to, and each way leaves the same session. The one writes what the forms print; the
other one writes after each form also the line that answers it, and ends by `quit` exactly when some
form of the text is `quit`. -/
theorem evalSource_agrees_run (fuel : Nat) (text : String) (s : Session) (before : ByteArray)
    (prompts : Sink) :
    let c : Conversation :=
      ⟨.ofSource (.ofString text .silent), s, ⟨.holding before, prompts⟩⟩
    match s.evalForms fuel (formsOf text) with
    | none => s.evalSource fuel text (.holding before) = none ∧ c.run fuel = none
    | some (answers, s') =>
      s.evalSource fuel text (.holding before) =
        some (.ok (answers.map Prod.fst), s', .holding (before ++ printed answers)) ∧
      ∃ ending last stream,
        c.Turns fuel (answers.map Prod.fst) last ∧
        (last.stream.readForm last.console).1 =
          .ok (if .quit ∈ formsOf text then some .quit else none) ∧
        c.run fuel =
          some (.ok ending, ⟨stream, s', ⟨.holding (before ++ transcript answers), prompts⟩⟩) ∧
        (ending = .quit ↔ .quit ∈ formsOf text) ∧
        (ending = .endOfInput ↔ .quit ∉ formsOf text) := by
  intro c
  have hhands := handsForms_ofString text
  have hsource : s.evalSource fuel text (.holding before) = _ :=
    Session.evalStreamAfter_of_handsForms hhands [] s before
  obtain ⟨stream, hrun⟩ : ∃ stream, c.run fuel = _ :=
    Conversation.run_of_handsForms hhands s before prompts
  cases heval : s.evalForms fuel (formsOf text) with
  | none =>
    rw [heval] at hsource hrun
    exact ⟨hsource, hrun⟩
  | some result =>
    obtain ⟨answers, s'⟩ := result
    rw [heval] at hsource hrun
    obtain ⟨left, hturns, hleft⟩ :=
      Conversation.turns_of_handsForms hhands before prompts heval
    refine ⟨hsource, _, _, stream, hturns, hleft _, hrun, ?_, ?_⟩
    · simp [Ending.after]
    · simp [Ending.after]

/-- A number, a call of it on the third line, and a request to stop. -/
theorem evalSource_agrees_run_third_line :
    let text := "7\n\n(7)\nquit\n8\n"
    let c : Conversation := ⟨.ofSource (.ofString text .silent), .new, .unlimited⟩
    let results : List FormResult := [.ok (.number 7), .error ⟨3, .notCallable "7"⟩]
    ∃ s' last stream,
      Session.new.evalSource 2 text .unlimited = some (.ok results, s', .unlimited) ∧
      c.Turns 2 results last ∧
      c.run 2 = some (.ok .quit, ⟨stream, s', ⟨.holding
        "7\nnot callable: 7 (on input that started on line 3)\n".toUTF8, .unlimited⟩⟩) := by
  intro text c results
  have hforms : formsOf text = [.tokens [⟨.atom "7", 1, 1⟩],
      .tokens [⟨.leftParen, 3, 1⟩, ⟨.atom "7", 3, 2⟩, ⟨.rightParen, 3, 3⟩], .quit,
      .tokens [⟨.atom "8", 5, 1⟩]] := by
    decide +kernel
  have hseven : (Value.number 7).text = "7" := by decide +kernel
  obtain ⟨s', heval⟩ : ∃ s', Session.new.evalForms 2 (formsOf text) =
      some ([(.ok (.number 7), .empty), (.error ⟨3, .notCallable "7"⟩, .empty)], s') := by
    rw [hforms, ← hseven]
    exact ⟨_, rfl⟩
  have hagree := evalSource_agrees_run 2 text .new .empty .unlimited
  simp only [heval] at hagree
  obtain ⟨hsource, ending, last, stream, hturns, -, hrun, hquit, -⟩ := hagree
  have hending : ending = .quit := hquit.2 (by rw [hforms]; decide)
  have htranscript :
      transcript [(.ok (.number 7), .empty), (.error ⟨3, .notCallable "7"⟩, .empty)] =
        "7\nnot callable: 7 (on input that started on line 3)\n".toUTF8 := by
    decide +kernel
  rw [hending, htranscript] at hrun
  exact ⟨s', last, stream, hsource, hturns, hrun⟩

end PocketLisp
