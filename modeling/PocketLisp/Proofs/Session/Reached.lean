import PocketLisp.Conversation
import PocketLisp.Proofs.Eval.Data

/-!
# The sessions that can be reached

A session starts with the primitive operations and then evaluates forms: single ones, those of a
text and those of a conversation. Whatever every form keeps therefore holds in every session.

## Main definitions

- `Session.Reached` — the sessions that evaluation leads to
- `Session.answers`, `Conversation.answers` — what the forms of a stream come to, and the session
  that each leaves
- `Session.Keeps` — every form keeps a property of sessions, and its result has another one

## Main statements

- `Session.evalForm_cases` — what one form can come to
- `Session.evalSource_eq` — the results for a text are those of its forms
- `Session.Keeps.reached` — a property that every form keeps holds in every session reached

## Design notes

The answers of a conversation hold also those that could not be written and those that came before
a form without an answer.
-/

namespace PocketLisp

namespace Session

/-- What the forms of a stream up to `quit` come to, each with the session it leaves. -/
def answers (fuel : Nat) (stream : TokenStream) (s : Session) (out : Sink) :
    List (FormResult × Session) :=
  match _h : stream.readForm .unlimited with
  | (.error _, _, _) | (.ok none, _, _) | (.ok (some .quit), _, _) => []
  | (.ok (some (.tokens ts)), stream', _) =>
    match evalForm fuel ts s out with
    | none => []
    | some (result, s', out') => (result, s') :: answers fuel stream' s' out'
termination_by stream.remaining
decreasing_by exact TokenStream.remaining_lt_of_readForm _h

end Session

/-- What the forms of a conversation come to, each with the session it leaves. -/
def Conversation.answers (fuel : Nat) (c : Conversation) : List (FormResult × Session) :=
  match _h : c.stream.readForm c.console with
  | (.error _, _, _) | (.ok none, _, _) | (.ok (some .quit), _, _) => []
  | (.ok (some (.tokens ts)), stream, ⟨out, prompts⟩) =>
    match c.session.evalForm fuel ts out with
    | none => []
    | some (result, session, out) =>
      match out.deliver (result.text ++ "\n") with
      | (.error _, _) => [(result, session)]
      | (.ok _, out) => (result, session) :: answers fuel ⟨stream, session, ⟨out, prompts⟩⟩
termination_by c.stream.remaining
decreasing_by exact TokenStream.remaining_lt_of_readForm _h

namespace Session

/-- The sessions that evaluation leads to, from a session with the primitive operations alone. -/
inductive Reached : Session → Prop
  | new : Reached new
  | form {s s' : Session} {fuel : Nat} {ts : List Token} {out out' : Sink} {r : FormResult} :
      Reached s → s.evalForm fuel ts out = some (r, s', out') → Reached s'
  | source {s s' : Session} {fuel : Nat} {text : String} {out out' : Sink}
      {r : Except Failure (List FormResult)} :
      Reached s → s.evalSource fuel text out = some (r, s', out') → Reached s'
  | run {c c' : Conversation} {fuel : Nat} {ending : Except Failure Ending} :
      Reached c.session → c.run fuel = some (ending, c') → Reached c'.session

variable {s s' : Session} {fuel : Nat} {ts : List Token} {out out' : Sink} {r : FormResult}

/-- A form that is not read leaves all as it was; another is evaluated in a frame of its own. -/
theorem evalForm_cases (h : s.evalForm fuel ts out = some (r, s', out')) :
    (∃ e, parse (ts.map Token.lexeme) = .error e ∧ r = .error ⟨formLine ts, e⟩ ∧ s' = s ∧
      out' = out) ∨
    ∃ e frame store, parse (ts.map Token.lexeme) = .ok e ∧
      s.store.newFrame [] (some s.global) = (frame, store) ∧ s'.global = s.global ∧
      ((∃ v, r = .ok v ∧ eval fuel frame e ⟨store, out⟩ = .value v ⟨s'.store, out'⟩) ∨
        ∃ err, r = .error ⟨formLine ts, err⟩ ∧
          eval fuel frame e ⟨store, out⟩ = .error err ⟨s'.store, out'⟩) := by
  obtain ⟨store, global⟩ := s
  simp only [evalForm] at h
  split at h
  · next e hparse =>
    cases h
    exact .inl ⟨e, hparse, rfl, rfl, rfl⟩
  · next e hparse =>
    refine .inr ⟨e, _, _, hparse, rfl, ?_⟩
    split at h
    · next v _ _ heval => cases h; exact ⟨rfl, .inl ⟨v, rfl, heval⟩⟩
    · next err _ _ heval => cases h; exact ⟨rfl, .inr ⟨err, rfl, heval⟩⟩
    · cases h

/-- Every form keeps the property `P` of sessions, and its result has the property `Q` in the
session that it leaves. -/
def Keeps (P : Session → Prop) (Q : Session → FormResult → Prop) : Prop :=
  ∀ ⦃fuel ts s out r s' out'⦄, P s → s.evalForm fuel ts out = some (r, s', out') → P s' ∧ Q s' r

namespace Keeps

variable {P : Session → Prop} {Q : Session → FormResult → Prop} {stream : TokenStream}

theorem evalStreamAfter (hk : Keeps P Q) (hs : P s) {seen : List FormResult}
    {rs : Except Failure (List FormResult)}
    (h : evalStreamAfter fuel seen stream s out = some (rs, s', out')) : P s' := by
  fun_induction Session.evalStreamAfter fuel seen stream s out with
  | case1 => cases h; exact hs
  | case2 => cases h; exact hs
  | case3 => cases h; exact hs
  | case4 => cases h
  | case5 _ _ _ _ _ _ _ _ _ _ _ heval ih => exact ih (hk hs heval).1 h

theorem run (hk : Keeps P Q) {c c' : Conversation} {ending : Except Failure Ending}
    (hs : P c.session) (h : c.run fuel = some (ending, c')) : P c'.session := by
  fun_induction Conversation.run fuel c with
  | case1 => cases h; exact hs
  | case2 => cases h; exact hs
  | case3 => cases h; exact hs
  | case4 => cases h
  | case5 _ _ _ _ _ _ _ _ _ heval => cases h; exact (hk hs heval).1
  | case6 _ _ _ _ _ _ _ _ _ heval _ _ _ ih => exact ih (hk hs heval).1 h

/-- Results that stay good when later forms are evaluated are good in the session that the last
one leaves. -/
theorem evalStreamAfter_results (hk : Keeps P Q)
    (hstable : ∀ ⦃fuel ts s out r s' out' r'⦄, P s → s.evalForm fuel ts out = some (r, s', out') →
      Q s r' → Q s' r')
    (hs : P s) {seen rs : List FormResult} (hseen : ∀ r ∈ seen, Q s r)
    (h : Session.evalStreamAfter fuel seen stream s out = some (.ok rs, s', out')) :
    ∀ r ∈ rs, Q s' r := by
  fun_induction Session.evalStreamAfter fuel seen stream s out with
  | case1 => cases h
  | case2 => cases h; simpa using hseen
  | case3 => cases h; simpa using hseen
  | case4 => cases h
  | case5 _ _ _ _ _ _ _ _ _ _ _ heval ih =>
    have hform := hk hs heval
    refine ih hform.1 ?_ h
    exact List.forall_mem_cons.2 ⟨hform.2, fun r hr => hstable hs heval (hseen r hr)⟩

/-- A property of new sessions that every form keeps holds in every session reached. -/
theorem reached (hk : Keeps P Q) (hnew : P new) (h : s.Reached) : P s := by
  induction h with
  | new => exact hnew
  | form _ heval ih => exact (hk ih heval).1
  | source _ heval ih => exact hk.evalStreamAfter ih heval
  | run _ hrun ih => exact hk.run ih hrun

theorem answers (hk : Keeps P Q) (hs : P s) :
    ∀ a ∈ Session.answers fuel stream s out, P a.2 ∧ Q a.2 a.1 := by
  fun_induction Session.answers fuel stream s out with
  | case1 => exact nofun
  | case2 => exact nofun
  | case3 => exact nofun
  | case4 => exact nofun
  | case5 _ _ _ _ _ _ _ _ _ _ heval ih =>
    have hform := hk hs heval
    exact List.forall_mem_cons.2 ⟨hform, ih hform.1⟩

theorem conversation_answers (hk : Keeps P Q) {c : Conversation} (hs : P c.session) :
    ∀ a ∈ c.answers fuel, P a.2 ∧ Q a.2 a.1 := by
  fun_induction Conversation.answers fuel c with
  | case1 => exact nofun
  | case2 => exact nofun
  | case3 => exact nofun
  | case4 => exact nofun
  | case5 _ _ _ _ _ _ _ _ _ heval => exact List.forall_mem_singleton.2 (hk hs heval)
  | case6 _ _ _ _ _ _ _ _ _ heval _ _ _ ih =>
    have hform := hk hs heval
    exact List.forall_mem_cons.2 ⟨hform, ih hform.1⟩

end Keeps

/-! ### The results for a text -/

variable {stream stream' : TokenStream} {c : Console}

theorem answers_eq_nil (h : ∀ ts, (stream.readForm .unlimited).1 ≠ .ok (some (.tokens ts))) :
    answers fuel stream s out = [] := by
  rw [answers]
  split
  · rfl
  · rfl
  · rfl
  · next hread => exact absurd (congrArg Prod.fst hread) (h _)

theorem answers_eq_cons
    (hread : stream.readForm .unlimited = (.ok (some (.tokens ts)), stream', c))
    (heval : s.evalForm fuel ts out = some (r, s', out')) :
    answers fuel stream s out = (r, s') :: answers fuel stream' s' out' := by
  rw [answers]
  split
  · next h => rw [hread] at h; cases h
  · next h => rw [hread] at h; cases h
  · next h => rw [hread] at h; cases h
  · next h =>
    rw [hread] at h
    cases h
    rw [heval]

theorem evalStreamAfter_eq {seen rs : List FormResult}
    (h : evalStreamAfter fuel seen stream s out = some (.ok rs, s', out')) :
    rs = seen.reverse ++ (answers fuel stream s out).map Prod.fst := by
  fun_induction evalStreamAfter fuel seen stream s out with
  | case1 => cases h
  | case2 _ _ _ _ _ _ hread =>
    cases h
    rw [answers_eq_nil (by simp [hread]), List.map_nil, List.append_nil]
  | case3 _ _ _ _ _ _ hread =>
    cases h
    rw [answers_eq_nil (by simp [hread]), List.map_nil, List.append_nil]
  | case4 => cases h
  | case5 _ _ _ _ _ _ _ hread _ _ _ heval ih =>
    rw [answers_eq_cons hread heval, ih h]
    simp

/-- The results for a text are what its forms come to. -/
theorem evalSource_eq {text : String} {rs : List FormResult}
    (h : s.evalSource fuel text out = some (.ok rs, s', out')) :
    rs = (answers fuel (.ofSource (.ofString text .silent)) s out).map Prod.fst :=
  evalStreamAfter_eq h

end Session

/-! ### The session that a conversation leaves -/

namespace Conversation

variable {fuel : Nat} {c c' : Conversation} {stream : TokenStream} {ts : List Token}
  {out out' out'' prompts : Sink} {s' : Session} {r : FormResult}

theorem answers_eq_nil
    (h : ∀ ts, (c.stream.readForm c.console).1 ≠ .ok (some (.tokens ts))) :
    c.answers fuel = [] := by
  rw [answers]
  split
  · rfl
  · rfl
  · rfl
  · next hread => exact absurd (congrArg Prod.fst hread) (h _)

theorem answers_eq_cons
    (hread : c.stream.readForm c.console = (.ok (some (.tokens ts)), stream, ⟨out, prompts⟩))
    (heval : c.session.evalForm fuel ts out = some (r, s', out')) :
    c.answers fuel = (r, s') ::
      match out'.deliver (r.text ++ "\n") with
      | (.error _, _) => []
      | (.ok _, out'') => answers fuel ⟨stream, s', ⟨out'', prompts⟩⟩ := by
  rw [answers]
  split
  · next h => rw [hread] at h; cases h
  · next h => rw [hread] at h; cases h
  · next h => rw [hread] at h; cases h
  · next h =>
    rw [hread] at h
    cases h
    rw [heval]
    dsimp only
    split <;> rfl

/-- A conversation leaves the session that its last form left. -/
theorem session_run {ending : Except Failure Ending} (h : c.run fuel = some (ending, c')) :
    c'.session = ((c.answers fuel).map Prod.snd).getLastD c.session := by
  fun_induction run fuel c with
  | case1 _ _ _ _ hread => cases h; rw [answers_eq_nil (by simp [hread])]; rfl
  | case2 _ _ _ hread => cases h; rw [answers_eq_nil (by simp [hread])]; rfl
  | case3 _ _ _ hread => cases h; rw [answers_eq_nil (by simp [hread])]; rfl
  | case4 => cases h
  | case5 _ _ _ _ _ hread _ _ _ heval _ _ hdeliver =>
    cases h
    rw [answers_eq_cons hread heval, hdeliver]
    rfl
  | case6 _ _ _ _ _ hread _ _ _ heval _ _ hdeliver ih =>
    rw [answers_eq_cons hread heval, hdeliver, ih h, List.map_cons, List.getLastD_cons]

end Conversation

end PocketLisp
