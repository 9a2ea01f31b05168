import Mathlib.Data.List.Basic
import PocketLisp.Proofs.Code.Parts
import PocketLisp.Proofs.Primitive.Answers
import PocketLisp.Eval

/-!
# Invariants of evaluation

What evaluation does to a machine, it does through few operations: it reads and assigns variables,
makes closures, enters their bodies and applies primitives. A property that each of these keeps is
kept by evaluation as a whole.

## Main definitions

- `Eval.Ends` — what holds when a computation ends, with a value or with an error
- `Invariant` — a property of machines, code and values that every operation keeps
- `Invariant.Safe` — a computation that keeps it

## Main statements

- `Invariant.eval_safe` — evaluation keeps every invariant, for any amount of fuel

## Design notes

A computation that runs out of fuel has no result, and nothing is said about it.
-/

namespace PocketLisp

namespace Eval

variable {α β : Type} {x : Eval α} {f : α → Eval β} {m : Machine}
  {post : α → Machine → Prop} {err : Error → Machine → Prop}

/-- When `x`, started on `m`, ends with a value, `post` holds of it and of the machine left behind;
when it ends with an error, `err` does. -/
def Ends (x : Eval α) (m : Machine) (post : α → Machine → Prop) (err : Error → Machine → Prop) :
    Prop :=
  match x m with
  | .value a m' => post a m'
  | .error e m' => err e m'
  | .outOfFuel => True

theorem ends_pure {a : α} (h : post a m) : Ends (pure a) m post err := h

theorem ends_fail {e : Error} (h : err e m) : Ends (fail e) m post err := h

theorem ends_outOfFuel : Ends outOfFuel m post err := trivial

theorem Ends.imp {post' : α → Machine → Prop} {err' : Error → Machine → Prop}
    (h : Ends x m post err) (hpost : ∀ a m', post a m' → post' a m')
    (herr : ∀ e m', err e m' → err' e m') : Ends x m post' err' := by
  unfold Ends at *
  split
  · next heq => rw [heq] at h; exact hpost _ _ h
  · next heq => rw [heq] at h; exact herr _ _ h
  · trivial

theorem Ends.bind {post' : β → Machine → Prop} (h : Ends x m post err)
    (hf : ∀ a m', post a m' → Ends (f a) m' post' err) : Ends (x >>= f) m post' err := by
  unfold Ends at *
  rw [bind_apply]
  cases hx : x m with
  | value a m' => rw [hx] at h; exact hf a m' h
  | error e m' => rw [hx] at h; exact h
  | outOfFuel => trivial

end Eval

/-- A property of machines, code and values that every operation of evaluation keeps. -/
structure Invariant where
  machine : Machine → Prop
  /-- How a machine may change. -/
  step : Machine → Machine → Prop
  /-- The code that may be evaluated in a scope. -/
  code : Machine → FrameId → Expr → Prop
  value : Machine → Value → Prop
  /-- The closures that may be entered. -/
  closure : Machine → Closure → Prop
  error : Error → Prop
  step_refl : ∀ m, step m m
  step_trans : ∀ {m₁ m₂ m₃}, step m₁ m₂ → step m₂ m₃ → step m₁ m₃
  code_step : ∀ {m m' i e}, step m m' → code m i e → code m' i e
  value_step : ∀ {m m' v}, step m m' → value m v → value m' v
  closure_step : ∀ {m m' c}, step m m' → closure m c → closure m' c
  code_special : ∀ {m i keyword args}, code m i (.special keyword args) →
    ∀ e ∈ args, code m i e
  code_call : ∀ {m i f args}, code m i (.call f args) → code m i f ∧ ∀ e ∈ args, code m i e
  value_nil : ∀ m, value m .nil
  value_literal : ∀ {m i v}, code m i (.literal v) → value m v
  lookup : ∀ {m i name v store}, machine m → m.store.lookup i name = (v, store) →
    machine { m with store } ∧ step m { m with store } ∧ value { m with store } v
  assign : ∀ {m v} i name, machine m → value m v →
    machine { m with store := m.store.assign i name v } ∧
      step m { m with store := m.store.assign i name v }
  newClosure : ∀ {m i formals body id store}, machine m → code m i (.lambda formals body) →
    m.store.newClosure formals body i = (id, store) →
    machine { m with store } ∧ step m { m with store } ∧ value { m with store } (.closure id)
  found : ∀ {m c} {id : ClosureId}, machine m → m.store.closures[id]? = some c → closure m c
  enter : ∀ {m c args frame store}, machine m → closure m c → c.formals.length = args.length →
    (∀ v ∈ args, value m v) →
    m.store.newFrame (.ofPairs (c.formals.zip args)) (some c.scope) = (frame, store) →
    machine { m with store } ∧ step m { m with store } ∧ code { m with store } frame c.body
  primitive : ∀ {m p args r out}, machine m → (∀ v ∈ args, value m v) →
    Primitive.apply p args m.out = (r, out) →
    machine { m with out } ∧ step m { m with out } ∧
      match r with
      | .ok v => value { m with out } v
      | .error e => error e
  error_of_not_isInternal : ∀ {e}, ¬ e.IsInternal → error e
  error_malformed : ∀ {m i keyword args}, code m i (.special keyword args) →
    ¬ keyword.Suits args → ∀ detail, error (.internal detail)

namespace Invariant

variable (I : Invariant) {α β : Type} {m m' : Machine} {good : Machine → α → Prop}

/-- The machine `m'` satisfies the invariant and may come after `m`. -/
def After (m m' : Machine) : Prop := I.machine m' ∧ I.step m m'

/-- A computation that keeps the invariant, and whose values are `good`. -/
def Safe (x : Eval α) (m : Machine) (good : Machine → α → Prop) : Prop :=
  x.Ends m (fun a m' => I.After m m' ∧ good m' a) fun e m' => I.After m m' ∧ I.error e

variable {I}

theorem After.refl (h : I.machine m) : I.After m m := ⟨h, I.step_refl m⟩

theorem After.trans {m₁ m₂ m₃ : Machine} (h : I.step m₁ m₂) (h' : I.After m₂ m₃) :
    I.After m₁ m₃ :=
  ⟨h'.1, I.step_trans h h'.2⟩

theorem safe_pure {a : α} (h : I.machine m) (ha : good m a) : I.Safe (pure a) m good :=
  Eval.ends_pure ⟨.refl h, ha⟩

theorem safe_fail {e : Error} (h : I.machine m) (he : ¬ e.IsInternal) :
    I.Safe (Eval.fail e) m good :=
  Eval.ends_fail ⟨.refl h, I.error_of_not_isInternal he⟩

theorem safe_outOfFuel : I.Safe Eval.outOfFuel m good := Eval.ends_outOfFuel

theorem Safe.bind {x : Eval α} {f : α → Eval β} {good' : Machine → β → Prop}
    (h : I.Safe x m good)
    (hf : ∀ a m', I.After m m' → good m' a → I.Safe (f a) m' good') :
    I.Safe (x >>= f) m good' := by
  refine Eval.Ends.bind h fun a m' ⟨hafter, ha⟩ => (hf a m' hafter ha).imp ?_ ?_
  · exact fun b m'' ⟨hafter', hb⟩ => ⟨.trans hafter.2 hafter', hb⟩
  · exact fun e m'' ⟨hafter', he⟩ => ⟨.trans hafter.2 hafter', he⟩

/-- A result or error found without the machine, of which the error is no internal one. -/
theorem safe_ofExcept {r : Except Error α} (h : I.machine m) (hok : ∀ a, r = .ok a → good m a)
    (herr : ∀ e, r = .error e → ¬ e.IsInternal) : I.Safe (Eval.ofExcept r) m good := by
  cases r with
  | ok a => exact safe_pure h (hok a rfl)
  | error e => exact safe_fail h (herr e rfl)

/-! ### The parts of evaluation -/

/-- An evaluator that keeps the invariant, for code of a scope. -/
def Evaluates (I : Invariant) (ev : Expr → Eval Value) (scope : FrameId) : Prop :=
  ∀ e m, I.machine m → I.code m scope e → I.Safe (ev e) m I.value

variable {ev : Expr → Eval Value} {evalIn : FrameId → Expr → Eval Value} {scope : FrameId}
  {e : Expr} {es args : List Expr}

theorem evalAll_safe (hev : I.Evaluates ev scope) (h : I.machine m)
    (hes : ∀ e ∈ es, I.code m scope e) :
    I.Safe (evalAll ev es) m fun m' vs => ∀ v ∈ vs, I.value m' v := by
  induction es generalizing m with
  | nil => exact safe_pure h (List.forall_mem_nil _)
  | cons e es ih =>
    rw [List.forall_mem_cons] at hes
    refine (hev e m h hes.1).bind fun v m' hafter hv => ?_
    have hrest := ih hafter.1 fun e he => I.code_step hafter.2 (hes.2 e he)
    refine hrest.bind fun vs m'' hafter' hvs => safe_pure hafter'.1 ?_
    exact List.forall_mem_cons.2 ⟨I.value_step hafter'.2 hv, hvs⟩

theorem evalLast_safe (hev : I.Evaluates ev scope) (h : I.machine m)
    (hes : ∀ e' ∈ e :: es, I.code m scope e') : I.Safe (evalLast ev e es) m I.value := by
  induction es generalizing e m with
  | nil => exact hev e m h (hes e (by simp))
  | cons e' es ih =>
    rw [List.forall_mem_cons] at hes
    refine (hev e m h hes.1).bind fun v m' hafter _ => ?_
    exact ih hafter.1 fun e he => I.code_step hafter.2 (hes.2 e he)

theorem evalWhile_safe {condition body : Expr} (hev : I.Evaluates ev scope) (rounds : Nat)
    (h : I.machine m) (hcondition : I.code m scope condition) (hbody : I.code m scope body) :
    I.Safe (evalWhile (ev condition) (ev body) rounds) m I.value := by
  induction rounds generalizing m with
  | zero => exact safe_outOfFuel
  | succ rounds ih =>
    refine (hev condition m h hcondition).bind fun v m' hafter _ => ?_
    split
    · refine (hev body m' hafter.1 (I.code_step hafter.2 hbody)).bind fun w m'' hafter' _ => ?_
      have hstep := I.step_trans hafter.2 hafter'.2
      exact ih hafter'.1 (I.code_step hstep hcondition) (I.code_step hstep hbody)
    · exact safe_pure hafter.1 (I.value_nil m')

theorem assign_safe {name : String} {v : Value} (h : I.machine m) (hv : I.value m v) :
    I.Safe (Eval.assign scope name v) m fun m' _ => I.value m' v := by
  obtain ⟨hmachine, hstep⟩ := I.assign scope name h hv
  exact ⟨⟨hmachine, hstep⟩, I.value_step hstep hv⟩

theorem evalSpecial_safe {keyword : Keyword} (hev : I.Evaluates ev scope) (rounds : Nat)
    (h : I.machine m) (hcode : I.code m scope (.special keyword args)) :
    I.Safe (evalSpecial ev rounds scope keyword args) m I.value := by
  have hargs := I.code_special hcode
  unfold evalSpecial
  split
  · next condition thenExpr elseExpr =>
    refine (hev condition m h (hargs _ (by simp))).bind fun v m' hafter _ => ?_
    split
    · exact hev _ m' hafter.1 (I.code_step hafter.2 (hargs _ (by simp)))
    · exact hev _ m' hafter.1 (I.code_step hafter.2 (hargs _ (by simp)))
  · exact evalWhile_safe hev rounds h (hargs _ (by simp)) (hargs _ (by simp))
  · next name e =>
    refine (hev e m h (hargs _ (by simp))).bind fun v m' hafter hv => ?_
    exact (assign_safe hafter.1 hv).bind fun _ m'' hafter' hv' => safe_pure hafter'.1 hv'
  · exact evalLast_safe hev h hargs
  · next hbranch hloop hassign hsequence =>
    -- Arguments that suit the keyword would have matched one of the cases before.
    refine Eval.ends_fail ⟨.refl h, I.error_malformed hcode ?_ _⟩
    intro hsuits
    cases keyword with
    | branch =>
      obtain ⟨a, b, c, rfl⟩ := List.length_eq_three.1 hsuits
      exact hbranch a b c rfl rfl
    | loop =>
      obtain ⟨a, b, rfl⟩ := List.length_eq_two.1 hsuits
      exact hloop a b rfl rfl
    | assign =>
      obtain ⟨name, e, rfl⟩ := hsuits
      exact hassign name e rfl rfl
    | sequence =>
      obtain ⟨e, es, rfl⟩ := List.exists_cons_of_ne_nil hsuits
      exact hsequence e es rfl rfl

theorem checkArity_safe {c : Closure} {count : Nat} (h : I.machine m) :
    I.Safe (Eval.ofExcept (c.checkArity count)) m fun m' _ =>
      m' = m ∧ c.formals.length = count := by
  unfold Closure.checkArity
  split
  · next hlength => exact safe_pure h ⟨rfl, hlength⟩
  · exact safe_fail h fun ⟨_, h⟩ => nomatch h

theorem primitive_checkArity_safe {p : Primitive} {count : Nat} (h : I.machine m) :
    I.Safe (Eval.ofExcept (p.checkArity count)) m fun m' _ => m' = m := by
  refine safe_ofExcept h (fun _ _ => rfl) fun e he => ?_
  unfold Primitive.checkArity at he
  split at he <;> cases he
  exact fun ⟨_, h⟩ => nomatch h

theorem applyClosure_safe {c : Closure} {values : List Value}
    (hev : ∀ i, I.Evaluates (evalIn i) i) (h : I.machine m) (hc : I.closure m c)
    (hvalues : ∀ v ∈ values, I.value m v) : I.Safe (applyClosure evalIn c values) m I.value := by
  refine (checkArity_safe h).bind fun _ m' _ ⟨heq, harity⟩ => ?_
  subst heq
  have henter : I.Safe (Eval.newFrame (.ofPairs (c.formals.zip values)) c.scope) m'
      fun m'' frame => I.code m'' frame c.body := by
    obtain ⟨hmachine, hstep, hbody⟩ := I.enter h hc harity hvalues rfl
    exact ⟨⟨hmachine, hstep⟩, hbody⟩
  exact henter.bind fun frame m'' hafter hbody => hev frame c.body m'' hafter.1 hbody

theorem primitive_safe {p : Primitive} {values : List Value} (h : I.machine m)
    (hvalues : ∀ v ∈ values, I.value m v) : I.Safe (Eval.primitive p values) m I.value := by
  unfold Safe Eval.Ends Eval.primitive
  rcases hr : p.apply values m.out with ⟨r, out⟩
  obtain ⟨hmachine, hstep, hresult⟩ := I.primitive h hvalues hr
  cases r with
  | ok v => exact ⟨⟨hmachine, hstep⟩, hresult⟩
  | error e => exact ⟨⟨hmachine, hstep⟩, hresult⟩

theorem notCallable_safe {operator : String} (h : I.machine m) :
    I.Safe (Eval.fail (.notCallable operator)) m good :=
  safe_fail h fun ⟨_, h⟩ => nomatch h

theorem evalCall_safe {operator : Value} (hev : ∀ i, I.Evaluates (evalIn i) i) (h : I.machine m)
    (hargs : ∀ e ∈ args, I.code m scope e) :
    I.Safe (evalCall evalIn scope operator args) m I.value := by
  unfold evalCall
  split
  · refine (primitive_checkArity_safe h).bind fun _ m' _ heq => ?_
    subst heq
    refine (evalAll_safe (hev scope) h hargs).bind fun values m'' hafter hvalues => ?_
    exact primitive_safe hafter.1 hvalues
  · next id =>
    have hfound : I.Safe (Eval.closure? id) m fun m' c => m' = m ∧ c = m.store.closures[id]? :=
      ⟨.refl h, rfl, rfl⟩
    refine hfound.bind fun found m' _ ⟨heq, hc⟩ => ?_
    subst heq
    split
    · next c =>
      refine (checkArity_safe h).bind fun _ m'' _ ⟨heq, _⟩ => ?_
      subst heq
      refine (evalAll_safe (hev scope) h hargs).bind fun values m hafter hvalues => ?_
      -- The closure was found before the arguments were evaluated.
      exact applyClosure_safe hev hafter.1 (I.closure_step hafter.2 (I.found h hc.symm)) hvalues
    · exact notCallable_safe h
  · exact notCallable_safe h

/-- Evaluation keeps every invariant, for any amount of fuel. -/
theorem eval_safe (I : Invariant) (fuel : Nat) (scope : FrameId) :
    I.Evaluates (eval fuel scope) scope := by
  -- A call spends fuel before its operator, its arguments and the body are evaluated.
  induction fuel generalizing scope with
  | zero => exact fun _ _ _ _ => safe_outOfFuel
  | succ fuel ih =>
    intro e m h hcode
    cases e with
    | literal v => exact safe_pure h (I.value_literal hcode)
    | var name =>
      obtain ⟨hmachine, hstep, hv⟩ := I.lookup h rfl (i := scope)
      exact ⟨⟨hmachine, hstep⟩, hv⟩
    | lambda formals body =>
      obtain ⟨hmachine, hstep, hv⟩ := I.newClosure h hcode rfl
      exact ⟨⟨hmachine, hstep⟩, hv⟩
    | special keyword args => exact evalSpecial_safe (ih scope) fuel h hcode
    | call operator args =>
      obtain ⟨hoperator, hargs⟩ := I.code_call hcode
      refine (ih scope operator m h hoperator).bind fun f m' hafter _ => ?_
      exact evalCall_safe ih hafter.1 fun e he => I.code_step hafter.2 (hargs e he)

end Invariant

end PocketLisp
