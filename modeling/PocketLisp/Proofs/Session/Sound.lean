import PocketLisp.Proofs.Session.Reached

/-!
# No form is evaluated that the parser would not accept

The evaluator refuses special forms whose arguments do not suit their keyword. The parser accepts
no such form, so this can only concern code that came from elsewhere; and in a session there is no
other code than what forms were read as.

## Main definitions

- `Store.Sound` — the closures inside a value are there, and their bodies are well formed
- `Session.Answer` — a sound value, or an error that is no internal one
- `Session.Sound` — all that a session holds and all that it answers is sound

## Main statements

- `DataInvariant.evalForm_keeps` — an invariant of data and code is kept by every form
- `Session.Reached.sound` — every session reached is sound
-/

namespace PocketLisp

theorem not_isInternal_of_parse {ls : List Lexeme} {e : Error} (h : parse ls = .error e) :
    ¬ e.IsInternal := by
  unfold parse at h
  split at h <;> cases h <;> exact fun ⟨_, h⟩ => nomatch h

/-! ### Invariants of data and code in sessions -/

namespace DataInvariant

variable (D : DataInvariant)

/-- All is good in the store of the session. -/
def HoldsIn (s : Session) : Prop := D.Holds s.store

/-- The result is good in the session. -/
def Allows (s : Session) : FormResult → Prop
  | .ok v => D.value s.store.closures.size v
  | .error e => D.error e.error

variable {D} {s s' : Session} {fuel : Nat} {ts : List Token} {out out' : Sink} {r : FormResult}

/-- A new session holds the primitive operations alone. -/
theorem holds_new (h : ∀ n p, D.value n (.primitive p)) : D.Holds Session.new.store := by
  constructor
  · intro v hv
    rcases Store.binds_newFrame hv with ⟨i, name, hmem⟩ | ⟨name, hmem⟩
    · cases hmem
    · obtain ⟨p, -, hp⟩ := List.mem_map.1 (Bindings.mem_of_mem_ofPairs hmem)
      cases hp
      exact h _ p
  · exact fun c hc => absurd hc (Array.not_mem_empty c)

/-- A form keeps an invariant of data and code that all parsed code has. -/
theorem evalForm_keeps (hparse : ∀ ls e, parse ls = .ok e → D.code e) (hs : D.Holds s.store)
    (h : s.evalForm fuel ts out = some (r, s', out')) :
    D.Holds s'.store ∧ s.store.closures.size ≤ s'.store.closures.size ∧ D.Allows s' r := by
  rcases Session.evalForm_cases h with ⟨e, he, rfl, rfl, -⟩ | ⟨e, frame, store, he, hframe, -, h⟩
  · exact ⟨hs, Nat.le_refl _, D.error_of_not_isInternal (not_isInternal_of_parse he)⟩
  · -- The frame of the form binds nothing.
    have hstore : D.Holds store ∧ store.closures = s.store.closures := by
      cases hframe
      exact ⟨hs.newFrame nofun, rfl⟩
    have hkept := D.eval_keeps (m := ⟨store, out⟩) hstore.1 (hparse _ e he) fuel frame
    rw [← hstore.2]
    rcases h with ⟨v, rfl, heval⟩ | ⟨err, rfl, heval⟩
    · rw [Eval.Ends, heval] at hkept
      exact hkept
    · rw [Eval.Ends, heval] at hkept
      exact hkept

theorem Allows.mono (hle : s.store.closures.size ≤ s'.store.closures.size)
    (h : D.Allows s r) : D.Allows s' r := by
  cases r with
  | ok v => exact D.value_mono hle h
  | error e => exact h

theorem keeps (hparse : ∀ ls e, parse ls = .ok e → D.code e) :
    Session.Keeps D.HoldsIn D.Allows := by
  intro fuel ts s out r s' out' hs h
  obtain ⟨hholds, -, hr⟩ := evalForm_keeps hparse hs h
  exact ⟨hholds, hr⟩

/-- The results for a text are good in the session that the text leaves. -/
theorem evalSource_results (hparse : ∀ ls e, parse ls = .ok e → D.code e) (hs : D.Holds s.store)
    {text : String} {rs : List FormResult}
    (h : s.evalSource fuel text out = some (.ok rs, s', out')) : ∀ r ∈ rs, D.Allows s' r := by
  refine (keeps hparse).evalStreamAfter_results ?_ hs (List.forall_mem_nil _) h
  intro fuel ts s out r s' out' r' hs h hr'
  exact hr'.mono (evalForm_keeps hparse hs h).2.1

end DataInvariant

/-! ### Sound sessions -/

/-- The closures inside a value are there, and their bodies are well formed. -/
def Store.Sound (s : Store) (v : Value) : Prop :=
  v.All fun w => ∀ id, w = .closure id → ∃ c, s.closures[id]? = some c ∧ c.body.WellFormed

namespace Session

/-- A sound value, or an error that is no internal one. -/
def Answer (s : Session) : FormResult → Prop
  | .ok v => s.store.Sound v
  | .error e => ¬ e.error.IsInternal

/-- All that a session holds and all that it answers is sound. -/
structure Sound (s : Session) : Prop where
  bound : ∀ v, s.store.Binds v → s.store.Sound v
  /-- This concerns every closure ever made, since no closure is removed. -/
  body : ∀ c ∈ s.store.closures, c.body.WellFormed
  form : ∀ {fuel ts out r s' out'}, s.evalForm fuel ts out = some (r, s', out') → s'.Answer r
  source : ∀ {fuel text out rs s' out'}, s.evalSource fuel text out = some (.ok rs, s', out') →
    ∀ r ∈ rs, s'.Answer r
  /-- This concerns also the forms that come before one without an answer. -/
  stream : ∀ {fuel stream out}, ∀ a ∈ answers fuel stream s out, a.2.Answer a.1
  conversation : ∀ {fuel c}, c.session = s → ∀ a ∈ Conversation.answers fuel c, a.2.Answer a.1

end Session

/-- Code is well formed, and the closures inside values are there. -/
def wellFormedCode : DataInvariant where
  code := Expr.WellFormed
  value n v := v.All fun w => ∀ id, w = .closure id → id < n
  error e := ¬ e.IsInternal
  value_mono hle h := h.imp fun _ hw id heq => Nat.lt_of_lt_of_le (hw id heq) hle
  value_nil _ := nofun
  value_literal _ h := h.imp fun _ hw id heq => absurd heq (hw id)
  value_answer hargs h := h.all (fun _ hw id heq => absurd heq (hw id)) hargs
  value_closure n _ := by
    intro id heq
    cases heq
    exact Nat.lt_succ_self n
  code_lambda h := Expr.wellFormed_lambda.1 h
  code_special h := (Expr.wellFormed_special.1 h).2
  code_call h := Expr.wellFormed_call.1 h
  error_of_not_isInternal h := h
  error_malformed h hsuits := absurd (Expr.wellFormed_special.1 h).1 hsuits

theorem sound_of_wellFormedCode {s : Store} {v : Value} (hs : wellFormedCode.Holds s)
    (h : wellFormedCode.value s.closures.size v) : s.Sound v := by
  refine Value.All.imp (fun w hw id heq => ?_) h
  have hid := hw id heq
  exact ⟨s.closures[id], Array.getElem?_eq_getElem hid, hs.body _ (Array.getElem_mem hid)⟩

namespace Session

theorem holds_new : wellFormedCode.Holds new.store := DataInvariant.holds_new fun _ _ => nofun

theorem answer_of_allows {s : Session} {r : FormResult} (hs : wellFormedCode.Holds s.store)
    (h : wellFormedCode.Allows s r) : s.Answer r := by
  cases r with
  | ok v => exact sound_of_wellFormedCode hs h
  | error e => exact h

/-- The parser accepts well-formed code alone, and no other code gets into a session: however a
session was reached, all that it holds and all that it answers is sound. -/
theorem Reached.sound {s : Session} (h : s.Reached) :
    (∀ ls e, parse ls = .ok e → e.WellFormed) ∧ s.Sound := by
  have hparse : ∀ ls e, parse ls = .ok e → e.WellFormed := fun _ _ => wellFormed_of_parse
  have hkeeps : Keeps wellFormedCode.HoldsIn wellFormedCode.Allows := DataInvariant.keeps hparse
  have hs : wellFormedCode.Holds s.store := hkeeps.reached holds_new h
  refine ⟨hparse, ?_⟩
  constructor
  case bound => exact fun v hv => sound_of_wellFormedCode hs (hs.bound v hv)
  case body => exact hs.body
  case form =>
    intro fuel ts out r s' out' heval
    obtain ⟨hs', -, hr⟩ := DataInvariant.evalForm_keeps hparse hs heval
    exact answer_of_allows hs' hr
  case source =>
    intro fuel text out rs s' out' heval r hr
    have hs' : wellFormedCode.Holds s'.store := hkeeps.evalStreamAfter hs heval
    exact answer_of_allows hs' (DataInvariant.evalSource_results hparse hs heval r hr)
  case stream =>
    intro fuel stream out a ha
    obtain ⟨hs', hr⟩ := hkeeps.answers hs a ha
    exact answer_of_allows hs' hr
  case conversation =>
    rintro fuel c rfl a ha
    obtain ⟨hs', hr⟩ := hkeeps.conversation_answers hs a ha
    exact answer_of_allows hs' hr

/-- The session after `(lambda (x) (if x 1 2))` holds a closure, and is sound. -/
theorem sound_of_lambda :
    ∃ s : Session, s.Reached ∧
      s.store.closures =
        #[⟨["x"], .special .branch [.var "x", .literal (.number 1), .literal (.number 2)], 1⟩] ∧
      s.Sound := by
  obtain ⟨s, heval, hbody⟩ : ∃ s, new.evalForm 1
      ([.leftParen, .atom "lambda", .leftParen, .atom "x", .rightParen,
        .leftParen, .atom "if", .atom "x", .atom "1", .atom "2", .rightParen,
        .rightParen].map (⟨·, 1, 1⟩)) .unlimited = some (.ok (.closure 0), s, .unlimited) ∧
      s.store.closures =
        #[⟨["x"], .special .branch [.var "x", .literal (.number 1), .literal (.number 2)], 1⟩] :=
    ⟨_, rfl, rfl⟩
  have h := Reached.form .new heval
  exact ⟨s, h, hbody, (Reached.sound h).2⟩

end Session

end PocketLisp
