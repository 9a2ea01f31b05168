import PocketLisp.Proofs.Eval.Related
import PocketLisp.Session

/-!
# Output is appended

On a sink that takes every text, what evaluation writes goes behind what is there, and what is there
makes no difference to anything else.

## Main definitions

- `Sink.holding` — a sink that never fails, with contents
- `appended` — the relation between machines of which one holds more output in front
- `Session.settle` — what a form comes to, by what its expression comes to

## Main statements

- `Primitive.apply_cases` — what an operation does to a sink
- `Primitive.exists_printed` — an operation appends the same to all contents
- `Session.evalForm_of_parse` — a form comes to what its expression comes to
- `Session.evalForm_holding` — the evaluation of a form appends the same to all contents
-/

namespace PocketLisp

/-- A sink that never fails and holds some bytes. -/
def Sink.holding (bytes : ByteArray) : Sink := ⟨bytes, none, false⟩

theorem Sink.write_holding (bytes : ByteArray) (text : String) :
    (holding bytes).write text = (.ok (), holding (bytes ++ text.toUTF8)) :=
  write_of_room_eq_none rfl text

theorem Sink.deliver_holding (bytes : ByteArray) (text : String) :
    (holding bytes).deliver text = (.ok (), holding (bytes ++ text.toUTF8)) := by
  rw [deliver, write_holding]
  rfl

namespace Primitive

/-- An operation has nothing to do with the sink, or it writes one text to it and gives a value
back. -/
theorem apply_cases (p : Primitive) (args : List Value) :
    (∃ r, ∀ out, p.apply args out = (r, out)) ∨
    ∃ v text, ∀ out, p.apply args out =
      match out.write text with
      | (.ok _, out) => (.ok v, out)
      | (.error f, out) => (.error f.toError, out) := by
  unfold apply
  split
  · next e _ => exact .inl ⟨.error e, fun _ => rfl⟩
  · by_cases hp : p = print
    · subst hp
      simp only [run, runPrint]
      cases oneValue "print" args with
      | error e => exact .inl ⟨.error e, fun _ => rfl⟩
      | ok v => exact .inr ⟨v, v.text ++ "\n", fun _ => rfl⟩
    · refine .inl ⟨(p.run args .unlimited).1, fun out => ?_⟩
      cases p <;> first | rfl | exact absurd rfl hp

/-- An operation has the same result and appends the same to all contents. -/
theorem exists_printed (p : Primitive) (args : List Value) :
    ∃ r printed, ∀ bytes, p.apply args (.holding bytes) = (r, .holding (bytes ++ printed)) := by
  rcases p.apply_cases args with ⟨r, h⟩ | ⟨v, text, h⟩
  · refine ⟨r, .empty, fun bytes => ?_⟩
    rw [h, ByteArray.append_empty]
  · refine ⟨.ok v, text.toUTF8, fun bytes => ?_⟩
    rw [h, Sink.write_holding]

end Primitive

/-- The output of the one machine is what comes behind `before` in the output of the other. No
operation tells them apart. -/
def appended (before : ByteArray) : MachineRelation where
  related m m' := ∃ store bytes, m = ⟨store, .holding bytes⟩ ∧
    m' = ⟨store, .holding (before ++ bytes)⟩
  closures := by
    rintro _ _ ⟨store, bytes, rfl, rfl⟩
    rfl
  lookup := by
    rintro _ _ ⟨store, bytes, rfl, rfl⟩ i name
    exact ⟨rfl, _, bytes, rfl, rfl⟩
  assign := by
    rintro _ _ ⟨store, bytes, rfl, rfl⟩ i name v
    exact ⟨_, bytes, rfl, rfl⟩
  newClosure := by
    rintro _ _ ⟨store, bytes, rfl, rfl⟩ formals body i
    exact ⟨_, bytes, rfl, rfl⟩
  newFrame := by
    rintro _ _ ⟨store, bytes, rfl, rfl⟩ b parent
    exact ⟨rfl, _, bytes, rfl, rfl⟩
  primitive := by
    rintro _ _ ⟨store, bytes, rfl, rfl⟩ p args
    obtain ⟨r, printed, hprinted⟩ := p.exists_printed args
    rw [hprinted, hprinted]
    exact ⟨rfl, store, bytes ++ printed, rfl, by rw [ByteArray.append_assoc]⟩

namespace Session

/-- What a form on this line comes to, by what its expression comes to. -/
def settle (line : Nat) (global : FrameId) :
    Outcome Value → Option (FormResult × Session × Sink)
  | .value v m => some (.ok v, ⟨m.store, global⟩, m.out)
  | .error e m => some (.error ⟨line, e⟩, ⟨m.store, global⟩, m.out)
  | .outOfFuel => none

variable {ts : List Token}

theorem evalForm_of_parse_error {err : Error} (h : parse (ts.map Token.lexeme) = .error err)
    (fuel : Nat) (s : Session) (out : Sink) :
    s.evalForm fuel ts out = some (.error ⟨formLine ts, err⟩, s, out) := by
  simp only [evalForm, h]

theorem evalForm_of_parse {e : Expr} (h : parse (ts.map Token.lexeme) = .ok e) (fuel : Nat)
    (s : Session) (out : Sink) :
    s.evalForm fuel ts out = settle (formLine ts) s.global
      (eval fuel (s.store.newFrame [] (some s.global)).1 e
        ⟨(s.store.newFrame [] (some s.global)).2, out⟩) := by
  simp only [evalForm, h]
  split
  · next heval => rw [heval]; rfl
  · next heval => rw [heval]; rfl
  · next heval => rw [heval]; rfl

/-- What a form comes to does not depend on what the sink holds, and what it writes is appended. -/
theorem evalForm_holding (fuel : Nat) (ts : List Token) (s : Session) (before : ByteArray) :
    s.evalForm fuel ts (.holding before) =
      (s.evalForm fuel ts .unlimited).map fun (r, s', out) =>
        (r, s', .holding (before ++ out.written)) := by
  cases hparse : parse (ts.map Token.lexeme) with
  | error err =>
    rw [evalForm_of_parse_error hparse, evalForm_of_parse_error hparse]
    show some _ = some (_, _, Sink.holding (before ++ .empty))
    rw [ByteArray.append_empty]
  | ok e =>
    rw [evalForm_of_parse hparse, evalForm_of_parse hparse]
    generalize (s.store.newFrame [] (some s.global)).1 = frame
    generalize (s.store.newFrame [] (some s.global)).2 = store
    have hrelated : (appended before).related ⟨store, .unlimited⟩ ⟨store, .holding before⟩ :=
      ⟨store, .empty, rfl, by rw [ByteArray.append_empty]⟩
    have heval := (appended before).eval_related hrelated fuel frame e
    cases h : eval fuel frame e ⟨store, .unlimited⟩ with
    | value v m =>
      rw [h] at heval
      obtain ⟨m', h', store', bytes, rfl, rfl⟩ := heval.exists_value
      rw [h']
      rfl
    | error err m =>
      rw [h] at heval
      obtain ⟨m', h', store', bytes, rfl, rfl⟩ := heval.exists_error
      rw [h']
      rfl
    | outOfFuel =>
      rw [h] at heval
      rw [heval.eq_outOfFuel]
      rfl

end Session

end PocketLisp
