import PocketLisp.Proofs.Eval.Invariant
import PocketLisp.Proofs.Session.Reached
import PocketLisp.Proofs.Store.Shape

/-!
# Evaluation keeps the shape of scopes

Evaluation moves no frame and forgets no name. It binds new names in outermost frames only, and the
frames that it makes are those of calls.

## Main definitions

- `nestedScopes` — the invariant of evaluation that frames are nested

## Main statements

- `eval_steps` — evaluation takes only the steps that keep the shape of scopes
- `Session.Reached.nested` — in a session frames are nested
- `scopes_keep_shape` — what becomes of scopes
-/

namespace PocketLisp

/-- Frames are nested, and what is evaluated takes steps that keep them so. -/
def nestedScopes : Invariant where
  machine m := m.store.Nested
  step m m' := m.store.Steps m'.store
  code m i _ := i < m.store.frames.size
  value _ _ := True
  closure m c := c ∈ m.store.closures
  error _ := True
  step_refl _ := .refl
  step_trans := .trans
  code_step hsteps hi := Nat.lt_of_lt_of_le hi hsteps.keepsFrames.size
  value_step _ _ := trivial
  closure_step hsteps hc := hsteps.mem_closures hc
  code_special hi _ _ := hi
  code_call hi := ⟨hi, fun _ _ => hi⟩
  value_nil _ := trivial
  value_literal _ := trivial
  lookup {m i name _ _} hm heq := by
    have hsteps := Store.steps_lookup m.store i name
    rw [heq] at hsteps
    exact ⟨hsteps.nested hm, hsteps, trivial⟩
  assign {m v} i name hm _ := by
    have hsteps := Store.steps_assign m.store i name v
    exact ⟨hsteps.nested hm, hsteps⟩
  newClosure {m i formals body _ _} hm hi heq := by
    have hstep := Store.Step.closure formals body hi
    rw [heq] at hstep
    exact ⟨hstep.nested hm, .single hstep, trivial⟩
  found _ hc := Array.mem_of_getElem? hc
  enter {m c args _ _} hm hc hlength _ heq := by
    cases heq
    have hstep := Store.Step.call hc hlength
    exact ⟨hstep.nested hm, .single hstep, by simp⟩
  primitive {m p args r out} hm _ _ := by
    refine ⟨hm, .refl, ?_⟩
    cases r <;> trivial
  error_of_not_isInternal _ := trivial
  error_malformed _ _ _ := trivial

/-- Evaluation takes only the steps that keep the shape of scopes. -/
theorem eval_steps {m : Machine} {scope : FrameId} (hm : m.store.Nested)
    (hscope : scope < m.store.frames.size) (fuel : Nat) (e : Expr) :
    (eval fuel scope e).Ends m (fun _ m' => m.store.Steps m'.store)
      fun _ m' => m.store.Steps m'.store :=
  (nestedScopes.eval_safe fuel scope e m hm hscope).imp (fun _ _ h => h.1.2) fun _ _ h => h.1.2

/-! ### Sessions -/

namespace Session

/-- The frames of the session are nested, and its global frame is one of them. -/
def NestedIn (s : Session) : Prop := s.store.Nested ∧ s.global < s.store.frames.size

theorem nestedIn_new : new.NestedIn := by
  constructor
  · have hempty : Store.empty.Nested := ⟨nofun, nofun⟩
    exact hempty.newFrame nofun
  · exact Nat.zero_lt_one

theorem keeps_nestedIn : Keeps NestedIn fun _ _ => True := by
  rintro fuel ts s out r s' out' ⟨hs, hglobal⟩ h
  refine ⟨?_, trivial⟩
  rcases evalForm_cases h with ⟨_, _, _, rfl, _⟩ | ⟨e, frame, store, _, hframe, hsame, h⟩
  · exact ⟨hs, hglobal⟩
  · obtain ⟨hnested, hscope, hmore⟩ : store.Nested ∧ frame < store.frames.size ∧
        s.store.frames.size < store.frames.size := by
      cases hframe
      refine ⟨hs.newFrame ?_, by simp, by simp⟩
      rintro p ⟨⟩
      exact hglobal
    have hsteps : store.Steps s'.store := by
      have hends := eval_steps (m := ⟨store, out⟩) hnested hscope fuel e
      rcases h with ⟨v, -, heval⟩ | ⟨err, -, heval⟩
      · rwa [Eval.Ends, heval] at hends
      · rwa [Eval.Ends, heval] at hends
    have hkept := Nat.lt_of_lt_of_le hmore hsteps.keepsFrames.size
    rw [NestedIn, hsame]
    exact ⟨hsteps.nested hnested, Nat.lt_trans hglobal hkept⟩

/-- In a session frames are nested. -/
theorem Reached.nested {s : Session} (h : s.Reached) : s.store.Nested :=
  (keeps_nestedIn.reached nestedIn_new h).1

end Session

/-! ### All scopes -/

/-- Evaluation in a frame of a store with nested frames, however it ends, keeps the shape of scopes,
and in a session frames are nested. -/
theorem scopes_keep_shape :
    (∀ fuel scope e m, m.store.Nested → scope < m.store.frames.size →
      (eval fuel scope e).Ends m (fun _ m' => m'.store.Nested ∧ m.store.KeepsScopes m'.store)
        fun _ m' => m'.store.Nested ∧ m.store.KeepsScopes m'.store) ∧
    ∀ s : Session, s.Reached → s.store.Nested ∧
      ∀ i < s.store.frames.size, s.store.Walk i (s.store.chain i) := by
  constructor
  · intro fuel scope e m hm hscope
    exact (eval_steps hm hscope fuel e).imp (fun _ _ h => ⟨h.nested hm, h.keepsScopes hm⟩)
      fun _ _ h => ⟨h.nested hm, h.keepsScopes hm⟩
  · intro s hs
    have hnested := hs.nested
    exact ⟨hnested, fun i hi => hnested.walk hi⟩

/-- `((lambda (x x) 7) 1 2)` makes a frame that binds `x` alone, inside the global frame. -/
theorem scopes_keep_shape_repeated :
    ∃ m, eval 2 0 (.call (.lambda ["x", "x"] (.literal (.number 7)))
        [.literal (.number 1), .literal (.number 2)]) ⟨Session.new.store, .unlimited⟩ =
        .value (.number 7) m ∧
      Session.new.store.frames.size = 1 ∧ m.store.frames.size = 2 ∧
      m.store.bindings 1 = [("x", .number 2)] ∧ m.store.parent? 1 = some 0 ∧
      Session.new.store.KeepsScopes m.store := by
  have hkept := scopes_keep_shape.1 2 0 (.call (.lambda ["x", "x"] (.literal (.number 7)))
    [.literal (.number 1), .literal (.number 2)]) ⟨Session.new.store, .unlimited⟩
    Session.nestedIn_new.1 Session.nestedIn_new.2
  exact ⟨_, rfl, rfl, rfl, rfl, rfl, hkept.2⟩

end PocketLisp
