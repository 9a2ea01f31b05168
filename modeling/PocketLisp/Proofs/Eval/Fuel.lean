import PocketLisp.Proofs.Eval.Simulation

/-!
# Evaluation with enough fuel

More fuel changes no result that less of it gives. So what an evaluation comes to can be told
without fuel: there is some that suffices, and all that does gives the same.

## Main definitions

- `Eval.Below` — a computation that may have too little fuel where another one has enough
- `Eval.Growing` — computations that have more and more fuel
- `Eval.Settles` — what they come to with enough of it
- `Returns` — what evaluating an expression comes to

## Main statements

- `eval_growing` — evaluations of an expression have more and more fuel
- `Eval.Settles.unique` — with enough fuel there is one result
- `Eval.settles_bind_iff` — what one computation after another comes to
- `Returns.unique` — evaluating an expression comes to one result
-/

namespace PocketLisp

/-- The outcome of a computation that ends, with a value or with an error. -/
def Outcome.ended {α : Type} : Except Error α → Machine → Outcome α
  | .ok a, m => .value a m
  | .error e, m => .error e m

theorem Outcome.ended_inj {α : Type} {r r' : Except Error α} {m m' : Machine}
    (h : Outcome.ended r m = .ended r' m') : r = r' ∧ m = m' := by
  cases r <;> cases r' <;> cases h <;> exact ⟨rfl, rfl⟩

theorem Outcome.ended_ne_outOfFuel {α : Type} {r : Except Error α} {m : Machine} :
    Outcome.ended r m ≠ .outOfFuel := by
  cases r <;> exact nofun

namespace Eval

variable {α β : Type}

/-- One computation after another ends with the error of the first one, or as the second one ends
after the first one gave a value. -/
theorem bind_eq_ended_iff {x : Eval α} {f : α → Eval β} {m m' : Machine} {r : Except Error β} :
    (x >>= f) m = .ended r m' ↔
      (∃ e, r = .error e ∧ x m = .ended (.error e) m') ∨
        ∃ a m₁, x m = .ended (.ok a) m₁ ∧ f a m₁ = .ended r m' := by
  rw [bind_apply]
  constructor
  · intro h
    cases hx : x m with
    | value a m₁ =>
      rw [hx] at h
      exact .inr ⟨a, m₁, rfl, h⟩
    | error e m₁ =>
      rw [hx] at h
      obtain ⟨rfl, rfl⟩ := Outcome.ended_inj (r := .error e) h
      exact .inl ⟨e, rfl, rfl⟩
    | outOfFuel =>
      rw [hx] at h
      exact absurd h.symm Outcome.ended_ne_outOfFuel
  · rintro (⟨e, rfl, hx⟩ | ⟨a, m₁, hx, hf⟩)
    · rw [hx]
      rfl
    · rw [hx]
      exact hf

/-! ### More fuel -/

/-- Where `x` ends, `y` ends in the same way. -/
def Below (x y : Eval α) : Prop := ∀ m, x m = .outOfFuel ∨ y m = x m

theorem Below.refl (x : Eval α) : Below x x := fun _ => .inr rfl

theorem Below.outOfFuel (y : Eval α) : Below Eval.outOfFuel y := fun _ => .inl rfl

theorem Below.bind {x y : Eval α} {f g : α → Eval β} (h : Below x y)
    (hfg : ∀ a, Below (f a) (g a)) : Below (x >>= f) (y >>= g) := by
  intro m
  rw [bind_apply, bind_apply]
  obtain hx | hx := h m
  · rw [hx]
    exact .inl rfl
  · rw [hx]
    cases x m with
    | value a m₁ => exact hfg a m₁
    | error e m₁ => exact .inr rfl
    | outOfFuel => exact .inl rfl

/-- A computation that ends does so in the same way where another one is above it. -/
theorem Below.ended {x y : Eval α} {m m' : Machine} {r : Except Error α} (h : Below x y)
    (hx : x m = .ended r m') : y m = .ended r m' := by
  obtain hout | heq := h m
  · rw [hx] at hout
    exact absurd hout Outcome.ended_ne_outOfFuel
  · rw [heq, hx]

end Eval

section

open Eval

variable {ev ev' : Expr → Eval Value} {evalIn evalIn' : FrameId → Expr → Eval Value}
  {rounds rounds' fuel fuel' : Nat}

theorem evalAll_below (h : ∀ e, Below (ev e) (ev' e)) (es : List Expr) :
    Below (evalAll ev es) (evalAll ev' es) := by
  induction es with
  | nil => exact .refl _
  | cons e es ih => exact (h e).bind fun v => ih.bind fun vs => .refl _

theorem evalLast_below (h : ∀ e, Below (ev e) (ev' e)) (e : Expr) (es : List Expr) :
    Below (evalLast ev e es) (evalLast ev' e es) := by
  induction es generalizing e with
  | nil => exact h e
  | cons e' es ih => exact (h e).bind fun _ => ih e'

/-- A loop may go round more often as well. -/
theorem evalWhile_below {condition condition' body body' : Eval Value}
    (hcondition : Below condition condition') (hbody : Below body body') (h : rounds ≤ rounds') :
    Below (evalWhile condition body rounds) (evalWhile condition' body' rounds') := by
  induction rounds generalizing rounds' with
  | zero => exact .outOfFuel _
  | succ rounds ih =>
    obtain ⟨rounds', rfl⟩ := Nat.exists_eq_add_one.2 (Nat.zero_lt_of_lt h)
    refine hcondition.bind fun v => ?_
    split
    · exact hbody.bind fun _ => ih (Nat.le_of_succ_le_succ h)
    · exact .refl _

theorem evalSpecial_below (h : ∀ e, Below (ev e) (ev' e)) (hrounds : rounds ≤ rounds')
    (scope : FrameId) (keyword : Keyword) (args : List Expr) :
    Below (evalSpecial ev rounds scope keyword args)
      (evalSpecial ev' rounds' scope keyword args) := by
  by_cases hsuits : keyword.Suits args
  · cases keyword with
    | branch =>
      obtain ⟨condition, thenExpr, elseExpr, rfl⟩ := List.length_eq_three.1 hsuits
      refine (h condition).bind fun v => ?_
      split
      · exact h elseExpr
      · exact h thenExpr
    | loop =>
      obtain ⟨condition, body, rfl⟩ := List.length_eq_two.1 hsuits
      exact evalWhile_below (h condition) (h body) hrounds
    | assign =>
      obtain ⟨name, e, rfl⟩ := hsuits
      exact (h e).bind fun v => .refl _
    | sequence =>
      obtain ⟨e, es, rfl⟩ := List.exists_cons_of_ne_nil hsuits
      exact evalLast_below h e es
  · rw [evalSpecial_of_not_suits hsuits, evalSpecial_of_not_suits hsuits]
    exact .refl _

theorem applyClosure_below (h : ∀ i e, Below (evalIn i e) (evalIn' i e)) (c : Closure)
    (args : List Value) : Below (applyClosure evalIn c args) (applyClosure evalIn' c args) :=
  (Below.refl _).bind fun _ => (Below.refl _).bind fun frame => h frame c.body

theorem evalCall_below (h : ∀ i e, Below (evalIn i e) (evalIn' i e)) (scope : FrameId)
    (operator : Value) (args : List Expr) :
    Below (evalCall evalIn scope operator args) (evalCall evalIn' scope operator args) := by
  have hargs := evalAll_below (h scope) args
  unfold evalCall
  split
  · exact (Below.refl _).bind fun _ => hargs.bind fun values => .refl _
  · refine (Below.refl _).bind fun found => ?_
    split
    · next c =>
      exact (Below.refl _).bind fun _ => hargs.bind fun values => applyClosure_below h c values
    · exact .refl _
  · exact .refl _

theorem evalStep_below (h : ∀ i e, Below (evalIn i e) (evalIn' i e)) (hrounds : rounds ≤ rounds')
    (scope : FrameId) (e : Expr) :
    Below (evalStep evalIn rounds scope e) (evalStep evalIn' rounds' scope e) := by
  cases e with
  | literal value => exact .refl _
  | var name => exact .refl _
  | lambda formals body => exact .refl _
  | special keyword args => exact evalSpecial_below (h scope) hrounds scope keyword args
  | call operator args => exact (h scope operator).bind fun f => evalCall_below h scope f args

/-- What an evaluation comes to with some fuel it comes to with more. -/
theorem eval_below (h : fuel ≤ fuel') (scope : FrameId) (e : Expr) :
    Below (eval fuel scope e) (eval fuel' scope e) := by
  induction fuel generalizing fuel' scope e with
  | zero => exact .outOfFuel _
  | succ fuel ih =>
    obtain ⟨fuel', rfl⟩ := Nat.exists_eq_add_one.2 (Nat.zero_lt_of_lt h)
    have hle := Nat.le_of_succ_le_succ h
    rw [eval_succ, eval_succ]
    exact evalStep_below (ih hle) hle scope e

end

/-! ### Enough fuel -/

namespace Eval

variable {α β : Type} {x y : Nat → Eval α} {f : Nat → α → Eval β} {m m' m₁ m₂ : Machine}
  {r r₁ r₂ : Except Error α}

/-- Computations, one for each amount of fuel, of which one with more fuel is above one with
less. -/
def Growing (x : Nat → Eval α) : Prop := ∀ ⦃fuel fuel'⦄, fuel ≤ fuel' → Below (x fuel) (x fuel')

theorem Growing.const (x : Eval α) : Growing fun _ => x := fun _ _ _ => .refl x

theorem Growing.bind (hx : Growing x) (hf : ∀ a, Growing fun fuel => f fuel a) :
    Growing fun fuel => x fuel >>= f fuel :=
  fun _ _ h => (hx h).bind fun a => hf a h

/-- With enough fuel, the computations end on the machine `m` with the result `r`, and leave the
machine `m'`. -/
def Settles (x : Nat → Eval α) (m : Machine) (r : Except Error α) (m' : Machine) : Prop :=
  ∃ fuel, x fuel m = .ended r m'

/-- With enough fuel there is one result, and one machine is left. -/
theorem Settles.unique (hx : Growing x) (h₁ : Settles x m r₁ m₁) (h₂ : Settles x m r₂ m₂) :
    r₁ = r₂ ∧ m₁ = m₂ := by
  obtain ⟨fuel₁, h₁⟩ := h₁
  obtain ⟨fuel₂, h₂⟩ := h₂
  have h₁' := (hx (Nat.le_max_left fuel₁ fuel₂)).ended h₁
  have h₂' := (hx (Nat.le_max_right fuel₁ fuel₂)).ended h₂
  exact Outcome.ended_inj (h₁'.symm.trans h₂')

theorem settles_congr (h : ∀ fuel, x fuel m = y fuel m₁) :
    Settles x m r m' ↔ Settles y m₁ r m' := by
  simp only [Settles, h]

theorem settles_const_iff {x : Eval α} : Settles (fun _ => x) m r m' ↔ x m = .ended r m' :=
  exists_const Nat

theorem settles_fail_iff {e : Error} :
    Settles (fun _ => Eval.fail e) m r m' ↔ r = .error e ∧ m' = m := by
  rw [settles_const_iff]
  constructor
  · intro h
    obtain ⟨rfl, rfl⟩ := Outcome.ended_inj (r := .error e) h
    exact ⟨rfl, rfl⟩
  · rintro ⟨rfl, rfl⟩
    rfl

/-- Computations that come to nothing without fuel may as well be given one more. -/
theorem settles_succ_iff (h : x 0 m = .outOfFuel) :
    Settles x m r m' ↔ Settles (fun fuel => x (fuel + 1)) m r m' := by
  constructor
  · rintro ⟨fuel, hfuel⟩
    cases fuel with
    | zero =>
      rw [h] at hfuel
      exact absurd hfuel.symm Outcome.ended_ne_outOfFuel
    | succ fuel => exact ⟨fuel, hfuel⟩
  · rintro ⟨fuel, hfuel⟩
    exact ⟨fuel + 1, hfuel⟩

/-- With enough fuel, one computation after another ends as they do. -/
theorem settles_bind_iff (hx : Growing x) (hf : ∀ a, Growing fun fuel => f fuel a)
    {r : Except Error β} :
    Settles (fun fuel => x fuel >>= f fuel) m r m' ↔
      (∃ e, r = .error e ∧ Settles x m (.error e) m') ∨
        ∃ a m₁, Settles x m (.ok a) m₁ ∧ Settles (fun fuel => f fuel a) m₁ r m' := by
  constructor
  · rintro ⟨fuel, hfuel⟩
    obtain ⟨e, he, hx⟩ | ⟨a, m₁, hx, hf⟩ := bind_eq_ended_iff.1 hfuel
    · exact .inl ⟨e, he, fuel, hx⟩
    · exact .inr ⟨a, m₁, ⟨fuel, hx⟩, fuel, hf⟩
  · rintro (⟨e, he, fuel, hfuel⟩ | ⟨a, m₁, ⟨fuel₁, h₁⟩, fuel₂, h₂⟩)
    · exact ⟨fuel, bind_eq_ended_iff.2 (.inl ⟨e, he, hfuel⟩)⟩
    · -- Both have enough fuel where there is as much as the one that needs more of it has.
      have h₁' := (hx (Nat.le_max_left fuel₁ fuel₂)).ended h₁
      have h₂' := (hf a (Nat.le_max_right fuel₁ fuel₂)).ended h₂
      exact ⟨max fuel₁ fuel₂, bind_eq_ended_iff.2 (.inr ⟨a, m₁, h₁', h₂'⟩)⟩

end Eval

section

open Eval

variable {scope : FrameId} {e : Expr} {es : List Expr} {m m' m₁ m₂ : Machine}
  {r r₁ r₂ : Except Error Value}

theorem eval_growing (scope : FrameId) (e : Expr) : Growing fun fuel => eval fuel scope e :=
  fun _ _ h => eval_below h scope e

theorem evalAll_growing (scope : FrameId) (es : List Expr) :
    Growing fun fuel => evalAll (eval fuel scope) es :=
  fun _ _ h => evalAll_below (eval_below h scope) es

/-- Evaluating an expression in a scope on the machine `m` ends with the result `r` and leaves the
machine `m'`. -/
def Returns (scope : FrameId) (e : Expr) : Machine → Except Error Value → Machine → Prop :=
  Settles fun fuel => eval fuel scope e

/-- An evaluation ends in one way at most. -/
theorem Returns.unique (h₁ : Returns scope e m r₁ m₁) (h₂ : Returns scope e m r₂ m₂) :
    r₁ = r₂ ∧ m₁ = m₂ :=
  Settles.unique (eval_growing scope e) h₁ h₂

end

end PocketLisp
