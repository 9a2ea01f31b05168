import PocketLisp.Proofs.Input.Grouping
import PocketLisp.Proofs.Session.Drivers

/-!
# A text in pieces

A session may be given a text in pieces: it comes to the same, as long as a piece ends with a line
end and leaves no form unfinished. Only the lines that errors tell are counted from the start of
each piece.

## Main definitions

- `FormResult.down` — a result, as it is when the form is that many lines further down

## Main statements

- `Session.evalSource_eq_evalEach` — the results for a text are those of its forms
- `Session.evalEach_append`, `Session.evalEach_down` — forms after other ones, and further down
- `Session.evalSource_append` — a text in two pieces
-/

namespace PocketLisp

/-- The result, as it is when the form is `n` lines further down. -/
def FormResult.down (n : Nat) : FormResult → FormResult
  | .ok v => .ok v
  | .error e => .error { e with line := e.line + n }

namespace Session

variable {fuel n : Nat} {forms : List Form} {ts : List Token}

theorem evalSource_eq_evalEach (fuel : Nat) (text : String) (s : Session) (out : Sink) :
    s.evalSource fuel text out =
      (evalEach fuel (formsOf text) s out).map fun (rs, s', out') => (.ok rs, s', out') :=
  evalStreamAfter_eq_evalEach (handsForms_ofString text) [] s out

/-- Forms after other ones, none of which is `quit`. -/
theorem evalEach_append (hquit : .quit ∉ forms) (more : List Form) (s : Session) (out : Sink) :
    evalEach fuel (forms ++ more) s out =
      (evalEach fuel forms s out).bind fun (rs, s₁, out₁) =>
        (evalEach fuel more s₁ out₁).map fun (rs', s', out') => (rs ++ rs', s', out') := by
  induction forms generalizing s out with
  | nil => simp [evalEach]
  | cons form forms ih =>
    obtain ⟨hform, hforms⟩ := not_or.1 (mt List.mem_cons.2 hquit)
    cases form with
    | quit => exact absurd rfl hform
    | tokens ts =>
      rw [List.cons_append, evalEach, evalEach]
      rcases s.evalForm fuel ts out with - | ⟨r, s₁, out₁⟩
      · rfl
      · simp only [Option.bind_some, ih hforms]
        rcases evalEach fuel forms s₁ out₁ with - | ⟨rs, s₂, out₂⟩
        · rfl
        · simp [Function.comp_def]

theorem formLine_map_down (h : ts ≠ []) : formLine (ts.map (Token.down n)) = formLine ts + n := by
  cases ts with
  | nil => exact absurd rfl h
  | cons t ts => rfl

/-- A form further down comes to the same, only that an error tells another line. -/
theorem evalForm_down (h : ts ≠ []) (s : Session) (out : Sink) :
    s.evalForm fuel (ts.map (Token.down n)) out =
      (s.evalForm fuel ts out).map fun (r, s', out') => (r.down n, s', out') := by
  have hlexemes : (ts.map (Token.down n)).map Token.lexeme = ts.map Token.lexeme := by
    rw [List.map_map]
    rfl
  obtain ⟨store, global⟩ := s
  simp only [evalForm, hlexemes, formLine_map_down h]
  split
  · rfl
  · split
    · rfl
    · rfl
    · rfl

/-- Forms further down come to the same, only that errors tell other lines. -/
theorem evalEach_down (h : ∀ form ∈ forms, form ≠ .tokens []) (s : Session) (out : Sink) :
    evalEach fuel (forms.map (Form.down n)) s out =
      (evalEach fuel forms s out).map fun (rs, s', out') =>
        (rs.map (FormResult.down n), s', out') := by
  induction forms generalizing s out with
  | nil => rfl
  | cons form forms ih =>
    obtain ⟨hform, hforms⟩ := List.forall_mem_cons.1 h
    cases form with
    | quit => rfl
    | tokens ts =>
      have hne : ts ≠ [] := fun hnil => hform (congrArg Form.tokens hnil)
      rw [List.map_cons, Form.down, evalEach, evalForm_down hne, evalEach]
      rcases s.evalForm fuel ts out with - | ⟨r, s₁, out₁⟩
      · rfl
      · simp [ih hforms, Function.comp_def]

/-- A text may be given to a session in pieces. If the first piece ends with a line end, or is
empty, leaves no form unfinished and does not ask to stop, the results for the whole are those for
the first piece and then those for the second one in the session that the first one left, with the
lines of errors counted on. Sink and session are the same in the end. -/
theorem evalSource_append {a : String} (ha : LineEnded a.toList) (hquit : .quit ∉ formsOf a)
    (hnothing : LeavesNothing a) (b : String) (fuel : Nat) (s : Session) (out : Sink) :
    match s.evalSource fuel a out with
    | none => s.evalSource fuel (a ++ b) out = none
    | some (first, s₁, out₁) =>
      match s₁.evalSource fuel b out₁ with
      | none => s.evalSource fuel (a ++ b) out = none
      | some (second, s₂, out₂) => ∃ rs rs', first = .ok rs ∧ second = .ok rs' ∧
        s.evalSource fuel (a ++ b) out =
          some (.ok (rs ++ rs'.map (FormResult.down (a.toList.count '\n'))), s₂, out₂) := by
  have hnonempty : ∀ form ∈ formsOf b, form ≠ .tokens [] := fun _ => ne_nil_of_mem_formsOf
  simp only [evalSource_eq_evalEach, formsOf_append ha hquit hnothing, evalEach_append hquit,
    evalEach_down hnonempty]
  rcases evalEach fuel (formsOf a) s out with - | ⟨rs, s₁, out₁⟩
  · rfl
  · dsimp only [Option.map_some, Option.bind_some]
    rcases evalEach fuel (formsOf b) s₁ out₁ with - | ⟨rs', s₂, out₂⟩
    · rfl
    · exact ⟨rs, rs', rfl, rfl, rfl⟩

/-- After `7` on a first line, the error of `)` tells the second one. -/
theorem evalSource_append_error :
    ∃ s s', new.evalSource 1 "7\n" .unlimited = some (.ok [.ok (.number 7)], s, .unlimited) ∧
      s.evalSource 1 ")" .unlimited = some (.ok [.error ⟨1, .unparsable⟩], s', .unlimited) ∧
      new.evalSource 1 "7\n)" .unlimited =
        some (.ok [.ok (.number 7), .error ⟨2, .unparsable⟩], s', .unlimited) := by
  have hseven : tokensOf "7\n" = [⟨.atom "7", 1, 1⟩, ⟨.newline, 1, 2⟩] := by
    rw [tokensOf_eq_line rfl]
    exact tokensOfLine_single rfl
  have hparen : tokensOf ")" = [⟨.rightParen, 1, 1⟩, ⟨.newline, 1, 2⟩] := by
    rw [tokensOf_eq_line rfl]
    exact tokensOfLine_single rfl
  have hformsSeven : formsOf "7\n" = [.tokens [⟨.atom "7", 1, 1⟩]] := by
    rw [formsOf_eq, hseven]
    rfl
  have hformsParen : formsOf ")" = [.tokens [⟨.rightParen, 1, 1⟩]] := by
    rw [formsOf_eq, hparen]
    rfl
  obtain ⟨s, hfirst⟩ : ∃ s, new.evalSource 1 "7\n" .unlimited =
      some (.ok [.ok (.number 7)], s, .unlimited) := by
    rw [evalSource_eq_evalEach, hformsSeven]
    exact ⟨_, rfl⟩
  have hsecond : s.evalSource 1 ")" .unlimited =
      some (.ok [.error ⟨1, .unparsable⟩], s, .unlimited) := by
    rw [evalSource_eq_evalEach, hformsParen]
    rfl
  have hended : LineEnded "7\n".toList := by
    intro c hc
    cases hc
    rfl
  have hquit : .quit ∉ formsOf "7\n" := by
    rw [hformsSeven]
    decide
  have hnothing : LeavesNothing "7\n" := by
    have htokens := (tokenize_eq "7\n").trans (congrArg Except.ok hseven)
    refine ⟨_, htokens, ?_⟩
    rw [hformsSeven]
    rfl
  have hwhole := evalSource_append hended hquit hnothing ")" 1 new .unlimited
  rw [hfirst] at hwhole
  dsimp only at hwhole
  rw [hsecond] at hwhole
  obtain ⟨rs, rs', hrs, hrs', hwhole⟩ := hwhole
  cases hrs
  cases hrs'
  exact ⟨s, s, hfirst, hsecond, hwhole⟩

end Session

end PocketLisp
