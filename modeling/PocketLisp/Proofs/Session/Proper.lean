import PocketLisp.Proofs.Eval.Operations
import PocketLisp.Proofs.Session.Sound
import PocketLisp.Proofs.Value.Proper

/-!
# Only proper lists exist in a session

However a session was reached, no list in it ends in anything but the empty list: not in a variable,
not in a constant of the code of a closure, not in the result of a form, and not among what an
operation is applied to or answers with.

## Main definitions

- `Expr.ProperLiterals` — all constants in code are made of proper lists
- `Primitive.AppliesProperly` — an operation is applied to proper lists and answers with such
- `Session.Proper` — all that a session holds, answers and passes to operations is made of proper
  lists

## Main statements

- `Session.Reached.lists_proper` — every session reached is like that

## Design notes

What operations are applied to is said by way of `evalWith`: whatever the operations do to other
values, evaluation does not notice. A symbol may be named by a dot, so a dot in a printed list does
not mean that the list is not proper; `Value.text_ofList` says what is printed.
-/

namespace PocketLisp

/-! ### Code -/

/-- All constants in the code are made of proper lists. -/
def Expr.ProperLiterals (e : Expr) : Prop := e.All fun e => ∀ v, e = .literal v → v.Proper

theorem properLiterals_of_parse {ls : List Lexeme} {e : Expr} (h : parse ls = .ok e) :
    e.ProperLiterals := by
  refine (parse_eq_ok_iff.1 h).derived.mono fun e he v heq => ?_
  subst heq
  obtain ⟨_, _, hv⟩ := he
  exact hv.proper

/-- Constants in code and values are made of proper lists. -/
def properLists : DataInvariant where
  code := Expr.ProperLiterals
  value _ v := v.Proper
  error _ := True
  value_mono _ h := h
  value_nil _ := Value.proper_nil
  value_literal _ h := h _ rfl
  value_answer hargs h := h.proper hargs
  value_closure _ _ := Value.proper_of_ne_pair nofun
  code_lambda h := (Expr.all_lambda.1 h).2
  code_special h := (Expr.all_special.1 h).2
  code_call h := (Expr.all_call.1 h).2
  error_of_not_isInternal _ := trivial
  error_malformed _ _ _ := trivial

/-! ### Operations -/

/-- The operation is applied to proper lists and answers with a proper list, and what it answers
with for the rest of a list is a list again. -/
structure Primitive.AppliesProperly (p : Primitive) (args : List Value) (out : Sink) : Prop where
  given : ∀ a ∈ args, a.Proper
  answer : ∀ v, (p.apply args out).1 = .ok v → v.Proper
  rest : p = .cdr → ∀ v, (p.apply args out).1 = .ok v → v = .nil ∨ ∃ car cdr, v = .pair car cdr

theorem Primitive.appliesProperly {args : List Value} (hargs : ∀ a ∈ args, a.Proper)
    (p : Primitive) (out : Sink) : p.AppliesProperly args out where
  given := hargs
  answer v hv := by
    have hanswer := p.apply_proper args out
    rw [hv] at hanswer
    exact Answer.proper hargs hanswer
  rest := by
    rintro rfl v hv
    obtain ⟨a, rfl⟩ := args_of_cdr hv
    exact (Value.proper_pair_iff.1 (List.forall_mem_singleton.1 hargs)).2.2

/-! ### Sessions -/

/-- The value of the form, if it has one, is made of proper lists. -/
def FormResult.Proper (r : FormResult) : Prop := ∀ v, r = .ok v → v.Proper

namespace Session

/-- All that a session holds, answers and passes to operations is made of proper lists. -/
structure Proper (s : Session) : Prop where
  bound : ∀ v, s.store.Binds v → v.Proper
  /-- This concerns every closure ever made, since no closure is removed. -/
  body : ∀ c ∈ s.store.closures, c.body.ProperLiterals
  form : ∀ {fuel ts out r s' out'}, s.evalForm fuel ts out = some (r, s', out') → r.Proper
  /-- This concerns all forms, also those that fail or do not end. -/
  applied : ∀ {ls e frame store}, parse ls = .ok e →
    s.store.newFrame [] (some s.global) = (frame, store) →
    ∀ apply : Primitive → List Value → Eval Value,
      (∀ p args m, p.AppliesProperly args m.out → apply p args m = Eval.primitive p args m) →
      ∀ fuel out, evalWith apply fuel frame e ⟨store, out⟩ = eval fuel frame e ⟨store, out⟩
  source : ∀ {fuel text out rs s' out'}, s.evalSource fuel text out = some (.ok rs, s', out') →
    ∀ r ∈ rs, r.Proper
  /-- This concerns also the forms that come before one without an answer. -/
  stream : ∀ {fuel stream out}, ∀ a ∈ answers fuel stream s out, a.2.Reached ∧ a.1.Proper
  conversation : ∀ {fuel c}, c.session = s →
    ∀ a ∈ Conversation.answers fuel c, a.2.Reached ∧ a.1.Proper

variable {s : Session} {r : FormResult}

theorem keeps_reached : Keeps Reached fun _ _ => True :=
  fun _ _ _ _ _ _ _ hs h => ⟨.form hs h, trivial⟩

theorem proper_of_allows (h : properLists.Allows s r) : r.Proper := by
  rintro v rfl
  exact h

/-- The parser gives code with proper lists alone, and only proper lists get into a session, are
given to operations and come out of it: however a session was reached, every chain of pairs ends in
the empty list, and so every pair is printed as the list of its items, without a dot. -/
theorem Reached.lists_proper (h : s.Reached) :
    (∀ ls e, parse ls = .ok e → e.ProperLiterals) ∧ s.Proper ∧
      ∀ v : Value, v.Proper → v.PrintsUndotted := by
  have hparse : ∀ ls e, parse ls = .ok e → e.ProperLiterals := fun _ _ => properLiterals_of_parse
  have hkeeps : Keeps properLists.HoldsIn properLists.Allows := DataInvariant.keeps hparse
  have hnew : properLists.Holds Session.new.store :=
    DataInvariant.holds_new fun _ _ => Value.proper_of_ne_pair nofun
  have hs : properLists.Holds s.store := hkeeps.reached hnew h
  refine ⟨hparse, ?_, fun v hv => hv.printsUndotted⟩
  constructor
  case bound => exact hs.bound
  case body => exact hs.body
  case form =>
    intro fuel ts out r s' out' heval
    exact proper_of_allows (hkeeps hs heval).2
  case applied =>
    intro ls e frame store he hframe apply happly fuel out
    have hstore : properLists.Holds store := by
      cases hframe
      exact hs.newFrame nofun
    refine properLists.evalWith_eq ?_ hstore (hparse ls e he) fuel frame
    intro p args m hargs
    exact happly p args m (p.appliesProperly hargs m.out)
  case source =>
    intro fuel text out rs s' out' heval r hr
    exact proper_of_allows (DataInvariant.evalSource_results hparse hs heval r hr)
  case stream =>
    intro fuel stream out a ha
    exact ⟨(keeps_reached.answers h a ha).1, proper_of_allows (hkeeps.answers hs a ha).2⟩
  case conversation =>
    rintro fuel c rfl a ha
    exact ⟨(keeps_reached.conversation_answers h a ha).1,
      proper_of_allows (hkeeps.conversation_answers hs a ha).2⟩

/-- The session after `(lambda (x) '(x 1))` holds a list in the code of a closure, and all its lists
are proper. -/
theorem lists_proper_of_lambda :
    ∃ s : Session, s.Reached ∧
      s.store.closures = #[⟨["x"], .literal (.ofList [.symbol "x", .number 1]), 1⟩] ∧
      s.Proper := by
  obtain ⟨s, heval, hbody⟩ : ∃ s, new.evalForm 1
      ([.leftParen, .atom "lambda", .leftParen, .atom "x", .rightParen,
        .quote, .leftParen, .atom "x", .atom "1", .rightParen, .rightParen].map (⟨·, 1, 1⟩))
        .unlimited = some (.ok (.closure 0), s, .unlimited) ∧
      s.store.closures = #[⟨["x"], .literal (.ofList [.symbol "x", .number 1]), 1⟩] :=
    ⟨_, rfl, rfl⟩
  have h := Reached.form .new heval
  exact ⟨s, h, hbody, (Reached.lists_proper h).2.1⟩

end Session

end PocketLisp
