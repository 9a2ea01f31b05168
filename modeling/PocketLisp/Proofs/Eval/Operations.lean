import Mathlib.Data.Nat.Basic
import PocketLisp.Proofs.Eval.Data
import PocketLisp.Proofs.Eval.Simulation

/-!
# Evaluation with other operations

Evaluation in which the primitive operations are free to do something else. Where they do the same
as before on all arguments that can come up, evaluation is the same as before. This says of the
arguments that come up during evaluation what is otherwise only known of its result.

## Main definitions

- `evalWith` — evaluation with given operations
- `DataInvariant.toSimulation` — one evaluation beside itself, on good data and code

## Main statements

- `evalWith_primitive` — evaluation with the operations of the language is evaluation
- `DataInvariant.evalWith_eq` — and so is evaluation with operations that do the same on good values
-/

namespace PocketLisp

variable (apply : Primitive → List Value → Eval Value)

/-- Calls the value of an operator, with other operations in place of the primitive ones. -/
def evalCallWith (evalIn : FrameId → Expr → Eval Value) (scope : FrameId) (operator : Value)
    (args : List Expr) : Eval Value := do
  match operator with
  | .primitive p =>
    Eval.ofExcept (p.checkArity args.length)
    let values ← evalAll (evalIn scope) args
    apply p values
  | _ => evalCall evalIn scope operator args

/-- The value of an expression in a scope, with other operations in place of the primitive ones. -/
def evalWith : (fuel : Nat) → FrameId → Expr → Eval Value
  | 0, _, _ => .outOfFuel
  | fuel + 1, scope, .call operator args => do
    let f ← evalWith fuel scope operator
    evalCallWith apply (evalWith fuel) scope f args
  | fuel + 1, scope, e => evalStep (evalWith fuel) fuel scope e

variable {apply}

theorem evalCallWith_of_ne {evalIn : FrameId → Expr → Eval Value} {scope : FrameId}
    {operator : Value} {args : List Expr} (h : ∀ p, operator ≠ .primitive p) :
    evalCallWith apply evalIn scope operator args = evalCall evalIn scope operator args := by
  cases operator with
  | primitive p => exact absurd rfl (h p)
  | _ => rfl

theorem evalCallWith_primitive (evalIn : FrameId → Expr → Eval Value) (scope : FrameId)
    (operator : Value) (args : List Expr) :
    evalCallWith Eval.primitive evalIn scope operator args =
      evalCall evalIn scope operator args := by
  cases operator with
  | primitive p => rfl
  | _ => exact evalCallWith_of_ne nofun

theorem evalWith_primitive (fuel : Nat) : evalWith Eval.primitive fuel = eval fuel := by
  induction fuel with
  | zero => rfl
  | succ fuel ih =>
    funext scope e
    cases e with
    | call operator args => simp only [evalWith, eval, evalCallWith_primitive, ih]
    | _ => simp only [evalWith, eval_succ, ih]

/-! ### Operations that agree -/

namespace Simulation

variable {World : Type} [Preorder World] {S : Simulation World} {w : World} {m m' : Machine}
  {evalIn evalIn' : FrameId → Expr → Eval Value} {i i' : FrameId} {args args' : List Expr}

theorem evalCallWith_agree {operator : Value}
    (happly : ∀ {w m m' p values}, S.machine w m m' → (∀ v ∈ values, S.value w v) →
      S.Agree w S.Same (apply p values m) (Eval.primitive p values m'))
    (hev : ∀ i i', S.Evaluates (evalIn i) (evalIn' i') i i') (h : S.machine w m m')
    (hoperator : S.value w operator) (hargs : List.Forall₂ (S.code w i i') args args') :
    S.Agree w S.Same (evalCallWith apply evalIn i operator args m)
      (evalCall evalIn' i' operator args' m') := by
  by_cases hp : ∃ p, operator = .primitive p
  · obtain ⟨p, rfl⟩ := hp
    unfold evalCallWith evalCall
    dsimp only
    rw [hargs.length_eq]
    refine withArgs_agree (hev i i') h hargs ?_
    intro w₁ values m₁ m₁' _ h₁ hvalues
    exact happly h₁ hvalues
  · rw [evalCallWith_of_ne fun p h => hp ⟨p, h⟩]
    exact evalCall_agree hev h hoperator hargs

/-- Evaluation with other operations agrees with evaluation where the operations do. -/
theorem evalWith_agree
    (happly : ∀ {w m m' p values}, S.machine w m m' → (∀ v ∈ values, S.value w v) →
      S.Agree w S.Same (apply p values m) (Eval.primitive p values m'))
    (fuel : Nat) (i i' : FrameId) :
    S.Evaluates (evalWith apply fuel i) (eval fuel i') i i' := by
  induction fuel generalizing i i' with
  | zero =>
    intro _ _ _ _ _ _ _
    trivial
  | succ fuel ih =>
    intro w e e' m m' h he
    have hstep := evalStep_agree ih fuel i i' w e e' m m' h he
    rw [eval_succ]
    cases S.code_matches he with
    | call hoperator hargs =>
      -- This is the one case in which `evalWith` does not go the way of `evalStep`.
      refine agree_bind (ih i i' w _ _ m m' h hoperator) fun w₁ f f' m₁ m₁' hle h₁ ⟨heq, hf⟩ => ?_
      subst heq
      exact evalCallWith_agree happly ih h₁ hf (code_mono_all hle hargs)
    | _ => exact hstep

end Simulation

/-! ### Good data and code -/

namespace DataInvariant

variable (D : DataInvariant)

/-- An evaluation of good code on a store in which all is good, beside itself. The worlds are the
numbers of closures made so far. -/
def toSimulation : Simulation Nat where
  machine n m m' := m = m' ∧ D.Holds m.store ∧ n = m.store.closures.size
  code _ i i' e e' := i = i' ∧ e = e' ∧ D.code e
  value := D.value
  closure _ c c' := c = c' ∧ D.code c.body
  code_mono _ h := h
  value_mono := D.value_mono
  closure_mono _ h := h
  code_matches := by
    rintro _ i _ e _ ⟨rfl, rfl, he⟩
    refine .of_operands fun d hd => ⟨rfl, rfl, ?_⟩
    cases e with
    | special keyword args => exact D.code_special he d hd
    | call operator args =>
      obtain ⟨hoperator, hargs⟩ := D.code_call he
      exact List.forall_mem_cons.2 ⟨hoperator, hargs⟩ d hd
    | _ => cases hd
  value_nil := D.value_nil
  value_literal h := D.value_literal _ h.2.2
  lookup := by
    rintro n m _ i _ name _ v v' s s' ⟨rfl, hholds, rfl⟩ ⟨rfl, heq, -⟩ h h'
    cases heq
    rw [h] at h'
    cases h'
    obtain ⟨hholds', hv⟩ := hholds.lookup h
    rw [← Store.closures_lookup h]
    exact ⟨rfl, .now ⟨⟨rfl, hholds', rfl⟩, hv⟩⟩
  assign := by
    rintro n m _ i _ name _ v ⟨rfl, hholds, rfl⟩ ⟨rfl, heq, -⟩ hv
    cases heq
    exact .now ⟨rfl, hholds.assign hv, congrArg Array.size Store.closures_assign.symm⟩
  newClosure := by
    rintro n m _ i _ formals _ body _ id id' s s' ⟨rfl, hholds, rfl⟩ ⟨rfl, heq, he⟩ h h'
    cases heq
    cases h
    cases h'
    have hbody := D.code_lambda he
    exact ⟨rfl, _, Nat.le_succ _, ⟨rfl, hholds.newClosure hbody, by simp⟩, D.value_closure _ he⟩
  found := by
    rintro n m _ id ⟨rfl, hholds, rfl⟩ -
    cases h : m.store.closures[id]? with
    | none => exact .none
    | some c => exact .some ⟨rfl, hholds.body c (Array.mem_of_getElem? h)⟩
  arity h := congrArg (fun c => c.formals.length) h.1
  enter := by
    rintro n m _ c _ args frame frame' s s' ⟨rfl, hholds, rfl⟩ ⟨rfl, hc⟩ - hargs h h'
    cases h
    cases h'
    have hbound : ∀ name v, (name, v) ∈ Bindings.ofPairs (c.formals.zip args) →
        D.value m.store.closures.size v := fun name v hv =>
      hargs v (List.of_mem_zip (Bindings.mem_of_mem_ofPairs hv)).2
    exact .now ⟨⟨rfl, hholds.newFrame hbound, rfl⟩, rfl, rfl, hc⟩
  primitive := by
    rintro n m _ p args r r' out out' ⟨rfl, hholds, rfl⟩ hargs h h'
    rw [h] at h'
    cases h'
    refine ⟨rfl, .now ⟨⟨rfl, hholds, rfl⟩, ?_⟩⟩
    rintro v rfl
    have hproper := Primitive.apply_proper p args m.out
    rw [h] at hproper
    exact D.value_answer hargs hproper

variable {D}

/-- Evaluation of good code on a store in which all is good applies the operations to good values
alone: it is the same with operations that differ on other values. -/
theorem evalWith_eq {m : Machine} {e : Expr}
    (happly : ∀ p values m, (∀ v ∈ values, D.value m.store.closures.size v) →
      apply p values m = Eval.primitive p values m)
    (h : D.Holds m.store) (he : D.code e) (fuel : Nat) (scope : FrameId) :
    evalWith apply fuel scope e m = eval fuel scope e m := by
  have happly : ∀ {n m m' p values}, D.toSimulation.machine n m m' →
      (∀ v ∈ values, D.toSimulation.value n v) →
      D.toSimulation.Agree n D.toSimulation.Same (apply p values m)
        (Eval.primitive p values m') := by
    rintro n m _ p values ⟨rfl, hholds, rfl⟩ hvalues
    rw [happly p values m hvalues]
    exact Simulation.primitive_agree ⟨rfl, hholds, rfl⟩ hvalues
  have hagree := Simulation.evalWith_agree happly fuel scope scope m.store.closures.size e e m m
    ⟨rfl, h, rfl⟩ ⟨rfl, rfl, he⟩
  revert hagree
  cases evalWith apply fuel scope e m <;> cases eval fuel scope e m <;> intro hagree <;>
    first | exact hagree.elim | skip
  · obtain ⟨_, -, ⟨rfl, -⟩, rfl, -⟩ := hagree
    rfl
  · obtain ⟨rfl, _, -, rfl, -⟩ := hagree
    rfl
  · rfl

end DataInvariant

end PocketLisp
