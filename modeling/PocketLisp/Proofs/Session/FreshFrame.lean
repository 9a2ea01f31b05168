import Mathlib
import PocketLisp.Proofs.Eval.Output
import PocketLisp.Proofs.Eval.Scopes
import PocketLisp.Proofs.Store.Collapsed

/-!
# The frame of a form cannot be noticed

A form is evaluated in an empty frame inside the global one. Forms that are evaluated in the global
frame itself come to the same, one after another.

## Main definitions

- `leavingOut` — evaluation on a store, and on one without some empty frames, side by side
- `Session.evalFormGlobally` — evaluates a form in the global frame itself
- `Session.evalInTurn` — evaluates forms in turn
- `Session.Alike` — what a form comes to in both ways

## Main statements

- `Store.Collapses.eval_related` — evaluation comes to the same
- `Session.Collapses.evalForm` — so does a form
- `Session.evalInTurn_alike` — and so do all forms in a session
-/

namespace PocketLisp

/-! ### Evaluation -/

/-- The same code in frames that correspond. -/
def leavingOut (P : Placement) : Simulation Unit where
  machine _ m m' := m.out = m'.out ∧ m.store.Collapses P m'.store
  code _ i i' e e' := i' = P.place i ∧ e' = e
  value _ _ := True
  closure _ c c' := c' = c.place P
  code_mono _ h := h
  value_mono _ h := h
  closure_mono _ h := h
  code_matches := by
    rintro _ i _ e _ ⟨rfl, rfl⟩
    exact .of_operands fun _ _ => ⟨rfl, rfl⟩
  value_nil _ := trivial
  value_literal _ := trivial
  lookup := by
    rintro _ m m' i _ name _ v v' s s' ⟨hout, hm⟩ ⟨rfl, heq⟩ h h'
    cases heq
    obtain ⟨hv, hs⟩ := hm.lookup i name
    rw [h, h'] at hv hs
    exact ⟨hv, .now ⟨⟨hout, hs⟩, trivial⟩⟩
  assign := by
    rintro _ m m' i _ name _ v ⟨hout, hm⟩ ⟨rfl, heq⟩ -
    cases heq
    exact .now ⟨hout, hm.assign i name v⟩
  newClosure := by
    rintro _ m m' i _ formals _ body _ id id' s s' ⟨hout, hm⟩ ⟨rfl, heq⟩ h h'
    cases heq
    obtain ⟨hid, hs⟩ := hm.newClosure formals body i
    rw [h, h'] at hid hs
    exact ⟨hid, .now ⟨⟨hout, hs⟩, trivial⟩⟩
  found := by
    rintro _ m m' id ⟨-, hm⟩ -
    rw [hm.closure]
    cases m.store.closures[id]? with
    | none => exact .none
    | some c => exact .some rfl
  arity := by
    rintro _ c _ rfl
    rfl
  enter := by
    rintro _ m m' c _ args frame frame' s s' ⟨hout, hm⟩ rfl - - h h'
    obtain ⟨hframe, hs⟩ := hm.newFrame (.ofPairs (c.formals.zip args)) c.scope
    dsimp only [Closure.place] at h'
    rw [h, h'] at hframe hs
    exact .now ⟨⟨hout, hs⟩, hframe, rfl⟩
  primitive := by
    rintro _ m m' p args r r' out out' ⟨hout, hm⟩ - h h'
    rw [hout, h'] at h
    cases h
    exact ⟨rfl, .now ⟨⟨rfl, hm⟩, fun _ _ => trivial⟩⟩

/-- Evaluation in frames that correspond comes to the same, for any amount of fuel. -/
theorem Store.Collapses.eval_related {P : Placement} {s s' : Store} (h : s.Collapses P s')
    (fuel : Nat) (scope : FrameId) (e : Expr) (out : Sink) :
    (eval fuel scope e ⟨s, out⟩).Related (fun m m' => m.out = m'.out ∧ m.store.Collapses P m'.store)
      (eval fuel (P.place scope) e ⟨s', out⟩) := by
  have hagree := (leavingOut P).eval_agree fuel scope (P.place scope) () e e ⟨s, out⟩ ⟨s', out⟩
    ⟨rfl, h⟩ ⟨rfl, rfl⟩
  exact hagree.related.imp fun _ _ ⟨_, _, hm⟩ => hm

namespace Session

/-! ### One form -/

/-- Reads one form and evaluates it in the global frame itself. -/
def evalFormGlobally (fuel : Nat) (tokens : List Token) (s : Session) (out : Sink) :
    Option (FormResult × Session × Sink) :=
  match parse (tokens.map Token.lexeme) with
  | .error e => some (.error ⟨formLine tokens, e⟩, s, out)
  | .ok e => settle (formLine tokens) s.global (eval fuel s.global e ⟨s.store, out⟩)

/-- Two forms come to the same value or the same error and have the same written. The global frames
that they leave bind the same names to the same values, and every closure there is comes from the
same `lambda` in both sessions. -/
structure Alike (a a' : FormResult × Session × Sink) : Prop where
  result : a'.1 = a.1
  out : a'.2.2 = a.2.2
  bindings : a'.2.1.store.bindings a'.2.1.global = a.2.1.store.bindings a.2.1.global
  closure : ∀ id : ClosureId, Option.Rel (fun c c' => c'.formals = c.formals ∧ c'.body = c.body)
    a.2.1.store.closures[id]? a'.2.1.store.closures[id]?

/-- The second session has the store of the first without frames that are left out, and the same
global frame. -/
def Collapses (s s' : Session) : Prop :=
  ∃ P : Placement, s.store.Collapses P s'.store ∧ ¬ P.omitted s.global ∧
    P.place s.global = s.global ∧ s'.global = s.global

variable {s s' : Session} {r : FormResult} {out : Sink} {ts : List Token} {fuel : Nat}

theorem Collapses.alike (h : s.Collapses s') : Alike (r, s, out) (r, s', out) := by
  obtain ⟨P, hstore, hkept, hplace, hglobal⟩ := h
  refine ⟨rfl, rfl, ?_, fun id => ?_⟩
  · have hbindings := (hstore.kept s.global hkept).1
    rw [hplace] at hbindings
    dsimp only
    rw [hglobal, hbindings]
  · dsimp only
    rw [hstore.closure]
    cases s.store.closures[id]? with
    | none => exact .none
    | some c => exact .some ⟨rfl, rfl⟩

/-- What outcomes with related machines come to is related. -/
theorem settle_related {R : Machine → Machine → Prop} {Q : FormResult × Session × Sink →
      FormResult × Session × Sink → Prop} {o o' : Outcome Value} {line : Nat}
    {global global' : FrameId} (h : o.Related R o')
    (hQ : ∀ (r : FormResult) m m', R m m' →
      Q (r, ⟨m.store, global⟩, m.out) (r, ⟨m'.store, global'⟩, m'.out)) :
    Option.Rel Q (settle line global o) (settle line global' o') := by
  cases o with
  | value v m =>
    obtain ⟨m', rfl, hm⟩ := h.exists_value
    exact .some (hQ _ m m' hm)
  | error e m =>
    obtain ⟨m', rfl, hm⟩ := h.exists_error
    exact .some (hQ _ m m' hm)
  | outOfFuel =>
    rw [h.eq_outOfFuel]
    exact .none

/-- A form comes to the same in both ways, and leaves sessions of which one is again without the
frames that are left out. -/
theorem Collapses.evalForm (h : s.Collapses s') (hs : s.NestedIn) (fuel : Nat) (ts : List Token)
    (out : Sink) :
    Option.Rel (fun a a' => Alike a a' ∧ a.2.1.Collapses a'.2.1) (s.evalForm fuel ts out)
      (s'.evalFormGlobally fuel ts out) := by
  cases hparse : parse (ts.map Token.lexeme) with
  | error err =>
    rw [evalForm_of_parse_error hparse, evalFormGlobally, hparse]
    exact .some ⟨h.alike, h⟩
  | ok e =>
    obtain ⟨P, hstore, hkept, hplace, hglobal⟩ := h
    obtain ⟨hnested, hlt⟩ := hs
    rw [evalForm_of_parse hparse, evalFormGlobally, hparse]
    -- The frame of this form is left out from now on.
    have hstart := hstore.leaveOut hnested hlt
    have heval := hstart.eval_related fuel s.store.frames.size e out
    rw [Placement.place_leaveOut_self, hplace] at heval
    rw [hglobal]
    refine settle_related heval ?_
    rintro r m m' ⟨hout, hm⟩
    have hleft : Collapses ⟨m.store, s.global⟩ ⟨m'.store, s.global⟩ := by
      refine ⟨_, hm, ?_, ?_, rfl⟩
      · rwa [Placement.omitted_leaveOut_of_lt hlt]
      · rwa [Placement.place_leaveOut_of_lt hlt]
    rw [← hout]
    exact ⟨hleft.alike, hleft⟩

/-! ### Forms one after another -/

/-- Evaluates forms in turn, each with fuel of its own. -/
def evalInTurn (ev : Nat → List Token → Session → Sink → Option (FormResult × Session × Sink)) :
    List (Nat × List Token) → Session → Sink → Option (List (FormResult × Session × Sink))
  | [], _, _ => some []
  | (fuel, ts) :: forms, s, out =>
    match ev fuel ts s out with
    | none => none
    | some (r, s, out) => (evalInTurn ev forms s out).map ((r, s, out) :: ·)

theorem Collapses.evalInTurn (h : s.Collapses s') (hs : s.NestedIn)
    (forms : List (Nat × List Token)) (out : Sink) :
    Option.Rel (List.Forall₂ Alike) (evalInTurn Session.evalForm forms s out)
      (evalInTurn evalFormGlobally forms s' out) := by
  induction forms generalizing s s' out with
  | nil => exact .some .nil
  | cons form forms ih =>
    obtain ⟨fuel, ts⟩ := form
    have hform := h.evalForm hs fuel ts out
    rw [Session.evalInTurn, Session.evalInTurn]
    generalize s'.evalFormGlobally fuel ts out = a' at hform ⊢
    cases ha : s.evalForm fuel ts out with
    | none =>
      rw [ha] at hform
      cases hform
      exact .none
    | some a =>
      obtain ⟨r, s₁, out₁⟩ := a
      have hs₁ := (keeps_nestedIn hs ha).1
      rw [ha] at hform
      cases hform with
      | @some _ a' h =>
        obtain ⟨r', s₁', out₁'⟩ := a'
        obtain ⟨halike, hleft⟩ := h
        obtain rfl : out₁' = out₁ := halike.out
        have hrest := ih hleft hs₁ out₁'
        dsimp only at hrest ⊢
        generalize Session.evalInTurn Session.evalForm forms s₁ out₁' = as at hrest ⊢
        generalize Session.evalInTurn evalFormGlobally forms s₁' out₁' = as' at hrest ⊢
        cases hrest with
        | none => exact .none
        | some h => exact .some (.cons halike h)

/-- Whether a form is evaluated in an empty frame of its own inside the global frame, or in the
global frame itself, cannot be told: from any session reached, any forms come to the same one after
another, for any amounts of fuel. -/
theorem evalInTurn_alike (h : s.Reached) (forms : List (Nat × List Token)) (out : Sink) :
    Option.Rel (List.Forall₂ Alike) (evalInTurn evalForm forms s out)
      (evalInTurn evalFormGlobally forms s out) := by
  have hstart : s.Collapses s := ⟨.id, s.store.collapses_id, id, rfl, rfl⟩
  exact hstart.evalInTurn (keeps_nestedIn.reached nestedIn_new h) forms out

/-- The session after `(set f (lambda (x) x))`. -/
def withIdentity : Session where
  store := {
    frames := #[⟨Store.primitiveBindings.set "f" (.closure 0), none⟩, ⟨[], some 0⟩]
    closures := #[⟨["x"], .var "x", 1⟩] }
  global := 0

theorem reached_withIdentity : withIdentity.Reached := by
  have heval : new.evalForm 2 ([.leftParen, .atom "set", .atom "f", .leftParen, .atom "lambda",
      .leftParen, .atom "x", .rightParen, .atom "x", .rightParen, .rightParen].map (⟨·, 1, 1⟩))
      .unlimited = some (.ok (.closure 0), withIdentity, .unlimited) := by
    cbv
  exact .form .new heval

/-- After `(set f (lambda (x) x))`, the forms `(f 3)` and `(f)` come to `3` and to an error in both
ways, although `f` was made in a frame of its own. -/
theorem evalInTurn_alike_identity :
    ∃ as as', withIdentity.Reached ∧
      evalInTurn evalForm [(3, [⟨.leftParen, 2, 1⟩, ⟨.atom "f", 2, 2⟩, ⟨.atom "3", 2, 4⟩,
        ⟨.rightParen, 2, 5⟩]), (3, [⟨.leftParen, 3, 1⟩, ⟨.atom "f", 3, 2⟩, ⟨.rightParen, 3, 3⟩])]
        withIdentity .unlimited = some as ∧
      evalInTurn evalFormGlobally [(3, [⟨.leftParen, 2, 1⟩, ⟨.atom "f", 2, 2⟩, ⟨.atom "3", 2, 4⟩,
        ⟨.rightParen, 2, 5⟩]), (3, [⟨.leftParen, 3, 1⟩, ⟨.atom "f", 3, 2⟩, ⟨.rightParen, 3, 3⟩])]
        withIdentity .unlimited = some as' ∧
      as.map Prod.fst = [.ok (.number 3), .error ⟨3, .closureArity 1 0⟩] ∧
      List.Forall₂ Alike as as' := by
  have hresults : (evalInTurn evalForm [(3, [⟨.leftParen, 2, 1⟩, ⟨.atom "f", 2, 2⟩,
      ⟨.atom "3", 2, 4⟩, ⟨.rightParen, 2, 5⟩]), (3, [⟨.leftParen, 3, 1⟩, ⟨.atom "f", 3, 2⟩,
      ⟨.rightParen, 3, 3⟩])] withIdentity .unlimited).map (List.map Prod.fst) =
      some [.ok (.number 3), .error ⟨3, .closureArity 1 0⟩] := by
    cbv
  have halike := evalInTurn_alike reached_withIdentity [(3, [⟨.leftParen, 2, 1⟩,
    ⟨.atom "f", 2, 2⟩, ⟨.atom "3", 2, 4⟩, ⟨.rightParen, 2, 5⟩]), (3, [⟨.leftParen, 3, 1⟩,
    ⟨.atom "f", 3, 2⟩, ⟨.rightParen, 3, 3⟩])] .unlimited
  obtain ⟨as, has, hmap⟩ := Option.map_eq_some_iff.1 hresults
  rw [has] at halike
  generalize evalInTurn evalFormGlobally _ withIdentity .unlimited = run at halike ⊢
  cases halike with
  | some h => exact ⟨as, _, reached_withIdentity, has, rfl, hmap, h⟩

end Session

end PocketLisp
