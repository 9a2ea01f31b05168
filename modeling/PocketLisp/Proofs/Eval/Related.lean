import Mathlib.Order.CompleteBooleanAlgebra
import Mathlib.Order.CompletePartialOrder
import PocketLisp.Proofs.Eval.Simulation

/-!
# Relations between machines

The plainest case of two evaluations side by side: the same code in the same scopes, on machines
whose stores have the same closures. What evaluation comes to is then the same.

## Main definitions

- `Outcome.Related` — outcomes that are the same, with related machines
- `MachineRelation` — a relation between machines that every operation keeps

## Main statements

- `MachineRelation.eval_related` — evaluation keeps it, and comes to the same
-/

namespace PocketLisp

/-- Both computations end with the same value, or with the same error, or neither ends within its
fuel; the machines that they leave are related. -/
def Outcome.Related {α : Type} (R : Machine → Machine → Prop) : Outcome α → Outcome α → Prop
  | .value a m, .value a' m' => a = a' ∧ R m m'
  | .error e m, .error e' m' => e = e' ∧ R m m'
  | .outOfFuel, .outOfFuel => True
  | _, _ => False

namespace Outcome.Related

variable {α : Type} {R : Machine → Machine → Prop} {a : α} {e : Error} {m : Machine}
  {o : Outcome α}

theorem exists_value (h : Related R (.value a m) o) : ∃ m', o = .value a m' ∧ R m m' := by
  cases o with
  | value a' m' =>
    obtain ⟨rfl, hm⟩ := h
    exact ⟨m', rfl, hm⟩
  | error e m' => exact h.elim
  | outOfFuel => exact h.elim

theorem exists_error (h : Related R (.error e m : Outcome α) o) :
    ∃ m', o = .error e m' ∧ R m m' := by
  cases o with
  | value a m' => exact h.elim
  | error e' m' =>
    obtain ⟨rfl, hm⟩ := h
    exact ⟨m', rfl, hm⟩
  | outOfFuel => exact h.elim

theorem eq_outOfFuel (h : Related R (.outOfFuel : Outcome α) o) : o = .outOfFuel := by
  cases o with
  | value a m' => exact h.elim
  | error e m' => exact h.elim
  | outOfFuel => rfl

theorem imp {R' : Machine → Machine → Prop} {o' : Outcome α} (hR : ∀ m m', R m m' → R' m m')
    (h : o.Related R o') : o.Related R' o' := by
  cases o <;> cases o' <;> first | exact h.elim | skip
  case value.value => exact ⟨h.1, hR _ _ h.2⟩
  case error.error => exact ⟨h.1, hR _ _ h.2⟩
  case outOfFuel.outOfFuel => trivial

end Outcome.Related

/-- Evaluations that agree come to the same, and leave machines that are related in some world. -/
theorem Simulation.Agree.related {World : Type} [Preorder World] {S : Simulation World} {w : World}
    {o o' : Outcome Value} (h : S.Agree w S.Same o o') :
    o.Related (fun m m' => ∃ w', w ≤ w' ∧ S.machine w' m m') o' := by
  cases o <;> cases o' <;> first | exact h.elim | skip
  case value.value =>
    obtain ⟨w', hle, hm, hv, -⟩ := h
    exact ⟨hv, w', hle, hm⟩
  case error.error => exact h
  case outOfFuel.outOfFuel => trivial

/-- A relation between machines that every operation keeps, with the same result on both. -/
structure MachineRelation where
  related : Machine → Machine → Prop
  closures : ∀ {m m'}, related m m' → m.store.closures = m'.store.closures
  lookup : ∀ {m m'}, related m m' → ∀ i name,
    (m.store.lookup i name).1 = (m'.store.lookup i name).1 ∧
      related { m with store := (m.store.lookup i name).2 }
        { m' with store := (m'.store.lookup i name).2 }
  assign : ∀ {m m'}, related m m' → ∀ i name v,
    related { m with store := m.store.assign i name v }
      { m' with store := m'.store.assign i name v }
  newClosure : ∀ {m m'}, related m m' → ∀ formals body i,
    related { m with store := (m.store.newClosure formals body i).2 }
      { m' with store := (m'.store.newClosure formals body i).2 }
  newFrame : ∀ {m m'}, related m m' → ∀ b parent,
    (m.store.newFrame b parent).1 = (m'.store.newFrame b parent).1 ∧
      related { m with store := (m.store.newFrame b parent).2 }
        { m' with store := (m'.store.newFrame b parent).2 }
  primitive : ∀ {m m'}, related m m' → ∀ (p : Primitive) args,
    (p.apply args m.out).1 = (p.apply args m'.out).1 ∧
      related { m with out := (p.apply args m.out).2 } { m' with out := (p.apply args m'.out).2 }

namespace MachineRelation

variable (R : MachineRelation)

/-- Both evaluations have the same code, scopes, values and closures. -/
def toSimulation : Simulation Unit where
  machine _ := R.related
  code _ i i' e e' := i = i' ∧ e = e'
  value _ _ := True
  closure _ c c' := c = c'
  code_mono _ h := h
  value_mono _ h := h
  closure_mono _ h := h
  code_matches := by
    rintro _ i _ e _ ⟨rfl, rfl⟩
    exact .of_operands fun _ _ => ⟨rfl, rfl⟩
  value_nil _ := trivial
  value_literal _ := trivial
  lookup := by
    rintro _ m m' i _ name _ v v' s s' hm ⟨rfl, heq⟩ h h'
    cases heq
    obtain ⟨hv, hs⟩ := R.lookup hm i name
    rw [h, h'] at hv hs
    exact ⟨hv, .now ⟨hs, trivial⟩⟩
  assign := by
    rintro _ m m' i _ name _ v hm ⟨rfl, heq⟩ -
    cases heq
    exact .now (R.assign hm i name v)
  newClosure := by
    rintro _ m m' i _ formals _ body _ id id' s s' hm ⟨rfl, heq⟩ h h'
    cases heq
    have hs := R.newClosure hm formals body i
    have hid : (m.store.newClosure formals body i).1 = (m'.store.newClosure formals body i).1 :=
      congrArg Array.size (R.closures hm)
    rw [h, h'] at hid hs
    exact ⟨hid, .now ⟨hs, trivial⟩⟩
  found := by
    rintro _ m m' id hm -
    rw [R.closures hm]
    cases m'.store.closures[id]? with
    | none => exact .none
    | some c => exact .some rfl
  arity h := congrArg (fun c => c.formals.length) h
  enter := by
    rintro _ m m' c _ args frame frame' s s' hm rfl - - h h'
    obtain ⟨hframe, hs⟩ := R.newFrame hm (.ofPairs (c.formals.zip args)) (some c.scope)
    rw [h, h'] at hframe hs
    exact .now ⟨hs, hframe, rfl⟩
  primitive := by
    rintro _ m m' p args r r' out out' hm - h h'
    obtain ⟨hr, hout⟩ := R.primitive hm p args
    rw [h, h'] at hr hout
    exact ⟨hr, .now ⟨hout, fun _ _ => trivial⟩⟩

variable {R} {m m' : Machine}

/-- Evaluation comes to the same on related machines, for any amount of fuel, and leaves related
machines. -/
theorem eval_related (h : R.related m m') (fuel : Nat) (scope : FrameId) (e : Expr) :
    (eval fuel scope e m).Related R.related (eval fuel scope e m') :=
  (R.toSimulation.eval_agree fuel scope scope () e e m m' h ⟨rfl, rfl⟩).related.imp
    fun _ _ ⟨_, _, hm⟩ => hm

end MachineRelation

end PocketLisp
