import PocketLisp.Proofs.Eval.Fuel
import PocketLisp.Proofs.Store.Shape

/-!
# Calls

A call evaluates its operator, looks at the number of the arguments, evaluates them from left to
right and only then does what the operator says. At each of these points it may end with an error,
and nothing that comes after is done.

## Main definitions

- `Callee` — what an operator calls
- `Store.callee?` — what a value calls, if it can be called
- `Callee.Applies` — what becomes of values to which it is applied
- `ReturnAll` — arguments have values, each evaluated after the one before it
- `Calls` — the ways in which a call ends

## Main statements

- `settles_evalAll_ok_iff`, `settles_evalAll_error_iff` — arguments have values, or a first one of
  them fails
- `evalCall_of_callee?_eq_some` — what the value of an operator calls is called
- `settles_callee_iff` — what comes of applying it to values
- `call_stops_at_one_point` — a call ends in one of these ways, and in one way only

## Design notes

The number of the arguments is looked at twice, before they are evaluated and again when the
operator is applied to their values. There are as many values as arguments, so the second time
nothing is found wrong, and none of the ways in which a call ends speaks of it.
-/

namespace PocketLisp

/-- What an operator calls. -/
inductive Callee where
  | primitive (p : Primitive)
  | closure (c : Closure)

/-- What a value calls: a primitive operation or a closure. No other value can be called. -/
def Store.callee? (s : Store) : Value → Option Callee
  | .primitive p => some (.primitive p)
  | .closure id => s.closures[id]?.map .closure
  | _ => none

namespace Callee

/-- The number of arguments that it takes. Every formal of a closure counts, also one that repeats
another. -/
def arity : Callee → Nat
  | primitive p => p.arity
  | closure c => c.formals.length

/-- The error of calling it with another number of arguments. -/
def arityError (count : Nat) : Callee → Error
  | primitive p => .arity p.name p.arity count
  | closure c => .closureArity c.formals.length count

/-- Whether it takes this many arguments. -/
def checkArity (count : Nat) : Callee → Except Error Unit
  | primitive p => p.checkArity count
  | closure c => c.checkArity count

/-- Applies it to values. -/
def apply (evalIn : FrameId → Expr → Eval Value) : Callee → List Value → Eval Value
  | primitive p, values => Eval.primitive p values
  | closure c, values => applyClosure evalIn c values

/-- Calls it with arguments that are yet to be evaluated in a scope. -/
def call (evalIn : FrameId → Expr → Eval Value) (scope : FrameId) (args : List Expr)
    (callee : Callee) : Eval Value := do
  Eval.ofExcept (callee.checkArity args.length)
  let values ← evalAll (evalIn scope) args
  callee.apply evalIn values

/-- Applied to values on the machine `m`, it ends with the result `r` and leaves `m'`. The body of a
closure is evaluated in a new frame inside the scope of the closure. -/
def Applies (values : List Value) (m : Machine) (r : Except Error Value) (m' : Machine) :
    Callee → Prop
  | primitive p => p.apply values m.out = (r, m'.out) ∧ m'.store = m.store
  | closure c =>
    let (frame, store) := m.store.newFrame (.ofPairs (c.formals.zip values)) (some c.scope)
    Returns frame c.body { m with store } r m'

variable {evalIn : FrameId → Expr → Eval Value} {scope : FrameId} {args : List Expr} {count : Nat}

theorem checkArity_of_eq (callee : Callee) (h : callee.arity = count) :
    callee.checkArity count = .ok () := by
  cases callee with
  | primitive p => exact if_pos h.symm
  | closure c => exact if_pos h

theorem checkArity_of_ne (callee : Callee) (h : callee.arity ≠ count) :
    callee.checkArity count = .error (callee.arityError count) := by
  cases callee with
  | primitive p => exact if_neg (Ne.symm h)
  | closure c => exact if_neg h

theorem call_of_eq (callee : Callee) (h : callee.arity = args.length) :
    callee.call evalIn scope args = evalAll (evalIn scope) args >>= callee.apply evalIn := by
  rw [call, callee.checkArity_of_eq h]
  rfl

theorem call_of_ne (callee : Callee) (h : callee.arity ≠ args.length) :
    callee.call evalIn scope args = Eval.fail (callee.arityError args.length) := by
  rw [call, callee.checkArity_of_ne h]
  rfl

end Callee

/-- Evaluating the arguments in a scope from left to right, each on the machine that the one before
it left, gives these values. -/
inductive ReturnAll (scope : FrameId) : List Expr → Machine → List Value → Machine → Prop
  | nil (m : Machine) : ReturnAll scope [] m [] m
  | cons {e : Expr} {es : List Expr} {v : Value} {vs : List Value} {m m₁ m' : Machine} :
      Returns scope e m (.ok v) m₁ → ReturnAll scope es m₁ vs m' →
      ReturnAll scope (e :: es) m (v :: vs) m'

/-- The ways in which a call on the machine `m` ends with a result and leaves a machine. -/
inductive Calls (scope : FrameId) (operator : Expr) (args : List Expr) (m : Machine) :
    Except Error Value → Machine → Prop
  | operatorFails {e : Error} {m' : Machine} :
      Returns scope operator m (.error e) m' → Calls scope operator args m (.error e) m'
  /-- No argument is evaluated where there is nothing to call. -/
  | notCallable {f : Value} {m' : Machine} :
      Returns scope operator m (.ok f) m' → m'.store.callee? f = none →
      Calls scope operator args m (.error (.notCallable f.text)) m'
  /-- No argument is evaluated where there are too many or too few. -/
  | wrongCount {f : Value} {callee : Callee} {m' : Machine} :
      Returns scope operator m (.ok f) m' → m'.store.callee? f = some callee →
      callee.arity ≠ args.length →
      Calls scope operator args m (.error (callee.arityError args.length)) m'
  /-- The first argument that fails is the last one that is evaluated. -/
  | argumentFails {f : Value} {callee : Callee} {before after : List Expr} {arg : Expr}
      {values : List Value} {e : Error} {m₁ m₂ m' : Machine} :
      Returns scope operator m (.ok f) m₁ → m₁.store.callee? f = some callee →
      callee.arity = args.length → args = before ++ arg :: after →
      ReturnAll scope before m₁ values m₂ → Returns scope arg m₂ (.error e) m' →
      Calls scope operator args m (.error e) m'
  | applied {f : Value} {callee : Callee} {values : List Value} {r : Except Error Value}
      {m₁ m₂ m' : Machine} :
      Returns scope operator m (.ok f) m₁ → m₁.store.callee? f = some callee →
      callee.arity = args.length → ReturnAll scope args m₁ values m₂ →
      callee.Applies values m₂ r m' → Calls scope operator args m r m'

section

open Eval

variable {scope : FrameId} {e operator : Expr} {es args : List Expr} {v f : Value}
  {vs values : List Value} {m m' m₁ : Machine} {r : Except Error Value} {callee : Callee}

/-! ### Arguments -/

/-- There are as many values as arguments. -/
theorem ReturnAll.length_eq (h : ReturnAll scope es m vs m') : vs.length = es.length := by
  induction h with
  | nil => rfl
  | cons _ _ ih => rw [List.length_cons, List.length_cons, ih]

theorem settles_evalAll_cons_iff {r : Except Error (List Value)} :
    Settles (fun fuel => evalAll (eval fuel scope) (e :: es)) m r m' ↔
      (∃ err, r = .error err ∧ Returns scope e m (.error err) m') ∨
        ∃ v m₁, Returns scope e m (.ok v) m₁ ∧
          ((∃ err, r = .error err ∧
              Settles (fun fuel => evalAll (eval fuel scope) es) m₁ (.error err) m') ∨
            ∃ vs, r = .ok (v :: vs) ∧
              Settles (fun fuel => evalAll (eval fuel scope) es) m₁ (.ok vs) m') := by
  have hrest : ∀ v, Growing fun fuel =>
      (do let vs ← evalAll (eval fuel scope) es; return v :: vs : Eval (List Value)) :=
    fun v => (evalAll_growing scope es).bind fun vs => .const _
  refine (settles_bind_iff (eval_growing scope e) hrest).trans ?_
  refine or_congr_right (exists_congr fun v => exists_congr fun m₁ => and_congr_right fun _ => ?_)
  refine (settles_bind_iff (evalAll_growing scope es) fun vs => .const (pure (v :: vs))).trans ?_
  refine or_congr_right (exists_congr fun vs => ?_)
  constructor
  · rintro ⟨m₂, hvs, hpure⟩
    obtain ⟨rfl, rfl⟩ := Outcome.ended_inj (r := .ok (v :: vs)) (settles_const_iff.1 hpure)
    exact ⟨rfl, hvs⟩
  · rintro ⟨rfl, hvs⟩
    exact ⟨m', hvs, settles_const_iff.2 rfl⟩

/-- Arguments have values when each of them has, evaluated after the one before it. -/
theorem settles_evalAll_ok_iff :
    Settles (fun fuel => evalAll (eval fuel scope) es) m (.ok vs) m' ↔
      ReturnAll scope es m vs m' := by
  induction es generalizing m vs with
  | nil =>
    constructor
    · intro h
      obtain ⟨heq, rfl⟩ := Outcome.ended_inj (r := .ok []) (settles_const_iff.1 h)
      cases heq
      exact .nil m
    · rintro ⟨⟩
      exact settles_const_iff.2 rfl
  | cons e es ih =>
    rw [settles_evalAll_cons_iff]
    constructor
    · rintro (⟨_, ⟨⟩, -⟩ | ⟨v, m₁, hv, ⟨_, ⟨⟩, -⟩ | ⟨vs, ⟨⟩, hvs⟩⟩)
      exact .cons hv (ih.1 hvs)
    · rintro (_ | ⟨hv, hvs⟩)
      exact .inr ⟨_, _, hv, .inr ⟨_, rfl, ih.2 hvs⟩⟩

/-- Arguments fail when a first one of them does, after all before it have values. -/
theorem settles_evalAll_error_iff {err : Error} :
    Settles (fun fuel => evalAll (eval fuel scope) es) m (.error err) m' ↔
      ∃ before arg after values m₁, es = before ++ arg :: after ∧
        ReturnAll scope before m values m₁ ∧ Returns scope arg m₁ (.error err) m' := by
  induction es generalizing m with
  | nil =>
    constructor
    · intro h
      obtain ⟨⟨⟩, -⟩ := Outcome.ended_inj (r := .ok []) (settles_const_iff.1 h)
    · rintro ⟨before, arg, after, values, m₁, hes, -⟩
      cases before <;> cases hes
  | cons e es ih =>
    rw [settles_evalAll_cons_iff]
    constructor
    · rintro (⟨_, ⟨⟩, he⟩ | ⟨v, m₁, hv, ⟨_, ⟨⟩, hfails⟩ | ⟨_, ⟨⟩, -⟩⟩)
      · exact ⟨[], e, es, [], m, rfl, .nil m, he⟩
      · obtain ⟨before, arg, after, values, m₂, rfl, hbefore, harg⟩ := ih.1 hfails
        exact ⟨e :: before, arg, after, v :: values, m₂, rfl, .cons hv hbefore, harg⟩
    · rintro ⟨before, arg, after, values, m₁, hes, hbefore, harg⟩
      -- Either the first argument fails, or it is one of those that have values.
      cases hbefore with
      | nil =>
        cases hes
        exact .inl ⟨err, rfl, harg⟩
      | cons hv hvs =>
        cases hes
        exact .inr ⟨_, _, hv, .inl ⟨err, rfl, ih.2 ⟨_, arg, after, _, m₁, rfl, hvs, harg⟩⟩⟩

/-! ### Operators -/

/-- The value of an operator that calls nothing cannot be called. -/
theorem evalCall_of_callee?_eq_none {evalIn : FrameId → Expr → Eval Value}
    (h : m.store.callee? f = none) :
    evalCall evalIn scope f args m = (Eval.fail (.notCallable f.text) : Eval Value) m := by
  cases f with
  | nil | number | symbol | pair => rfl
  | primitive p => cases h
  | closure id =>
    rw [evalCall, bind_apply, Eval.closure?, Option.map_eq_none_iff.1 h]

/-- What the value of an operator calls is called. -/
theorem evalCall_of_callee?_eq_some {evalIn : FrameId → Expr → Eval Value}
    (h : m.store.callee? f = some callee) :
    evalCall evalIn scope f args m = callee.call evalIn scope args m := by
  cases f with
  | nil | number | symbol | pair => cases h
  | primitive p =>
    cases h
    rfl
  | closure id =>
    obtain ⟨c, hc, rfl⟩ := Option.map_eq_some_iff.1 h
    rw [evalCall, bind_apply, Eval.closure?, hc]
    rfl

/-- A closure that is applied to as many values as it has formals evaluates its body in a new
frame. -/
theorem applyClosure_of_length {evalIn : FrameId → Expr → Eval Value} {c : Closure}
    (h : c.formals.length = values.length) (m : Machine) :
    applyClosure evalIn c values m =
      evalIn m.store.frames.size c.body { m with store := m.store.enter c values } := by
  rw [applyClosure, Closure.checkArity, if_pos h]
  rfl

theorem primitive_eq (p : Primitive) (values : List Value) (m : Machine) :
    Eval.primitive p values m =
      .ended (p.apply values m.out).1 { m with out := (p.apply values m.out).2 } := by
  rw [Eval.primitive]
  obtain ⟨_ | _, out⟩ := p.apply values m.out <;> rfl

theorem settles_callee_iff (h : callee.arity = values.length) :
    Settles (fun fuel => callee.apply (eval fuel) values) m r m' ↔
      callee.Applies values m r m' := by
  cases callee with
  | primitive p =>
    refine (settles_const_iff (x := Eval.primitive p values)).trans ?_
    rw [primitive_eq, Callee.Applies, Prod.ext_iff]
    constructor
    · intro heq
      obtain ⟨rfl, rfl⟩ := Outcome.ended_inj heq
      exact ⟨⟨rfl, rfl⟩, rfl⟩
    · rintro ⟨⟨rfl, hout⟩, hstore⟩
      cases m'
      cases hout
      cases hstore
      rfl
  | closure c =>
    have happly : ∀ fuel, applyClosure (eval fuel) c values m =
        eval fuel m.store.frames.size c.body { m with store := m.store.enter c values } :=
      fun fuel => applyClosure_of_length h m
    exact settles_congr happly

/-! ### Calls -/

theorem evalCall_growing (scope : FrameId) (f : Value) (args : List Expr) :
    Growing fun fuel => evalCall (eval fuel) scope f args :=
  fun _ _ h => evalCall_below (eval_below h) scope f args

theorem Callee.apply_growing (callee : Callee) (values : List Value) :
    Growing fun fuel => callee.apply (eval fuel) values := by
  cases callee with
  | primitive p => exact .const _
  | closure c => exact fun _ _ h => applyClosure_below (eval_below h) c values

theorem returns_call_iff : Returns scope (.call operator args) m r m' ↔
    (∃ err, r = .error err ∧ Returns scope operator m (.error err) m') ∨
      ∃ f m₁, Returns scope operator m (.ok f) m₁ ∧
        Settles (fun fuel => evalCall (eval fuel) scope f args) m₁ r m' :=
  (settles_succ_iff rfl).trans
    (settles_bind_iff (eval_growing scope operator) fun f => evalCall_growing scope f args)

theorem settles_evalCall_iff_of_none (h : m.store.callee? f = none) :
    Settles (fun fuel => evalCall (eval fuel) scope f args) m r m' ↔
      r = .error (.notCallable f.text) ∧ m' = m :=
  (settles_congr fun _ => evalCall_of_callee?_eq_none h).trans settles_fail_iff

theorem settles_evalCall_iff_of_ne (h : m.store.callee? f = some callee)
    (harity : callee.arity ≠ args.length) :
    Settles (fun fuel => evalCall (eval fuel) scope f args) m r m' ↔
      r = .error (callee.arityError args.length) ∧ m' = m := by
  rw [settles_congr fun _ => evalCall_of_callee?_eq_some h]
  simp only [callee.call_of_ne harity]
  exact settles_fail_iff

theorem settles_evalCall_iff_of_eq (h : m.store.callee? f = some callee)
    (harity : callee.arity = args.length) :
    Settles (fun fuel => evalCall (eval fuel) scope f args) m r m' ↔
      (∃ err, r = .error err ∧
        Settles (fun fuel => evalAll (eval fuel scope) args) m (.error err) m') ∨
      ∃ values m₁, ReturnAll scope args m values m₁ ∧ callee.Applies values m₁ r m' := by
  rw [settles_congr fun _ => evalCall_of_callee?_eq_some h]
  simp only [callee.call_of_eq harity]
  refine (settles_bind_iff (evalAll_growing scope args) callee.apply_growing).trans ?_
  refine or_congr_right (exists_congr fun values => exists_congr fun m₁ => ?_)
  rw [settles_evalAll_ok_iff]
  refine and_congr_right fun hall => settles_callee_iff ?_
  rw [harity, hall.length_eq]

theorem returns_call_iff_calls :
    Returns scope (.call operator args) m r m' ↔ Calls scope operator args m r m' := by
  rw [returns_call_iff]
  constructor
  · rintro (⟨err, rfl, hfails⟩ | ⟨f, m₁, hf, hcall⟩)
    · exact .operatorFails hfails
    · cases hcallee : m₁.store.callee? f with
      | none =>
        obtain ⟨rfl, rfl⟩ := (settles_evalCall_iff_of_none hcallee).1 hcall
        exact .notCallable hf hcallee
      | some callee =>
        by_cases harity : callee.arity = args.length
        · obtain ⟨err, rfl, hfails⟩ | ⟨values, m₂, hall, happlies⟩ :=
            (settles_evalCall_iff_of_eq hcallee harity).1 hcall
          · obtain ⟨before, arg, after, values, m₂, hargs, hbefore, harg⟩ :=
              settles_evalAll_error_iff.1 hfails
            exact .argumentFails hf hcallee harity hargs hbefore harg
          · exact .applied hf hcallee harity hall happlies
        · obtain ⟨rfl, rfl⟩ := (settles_evalCall_iff_of_ne hcallee harity).1 hcall
          exact .wrongCount hf hcallee harity
  · intro h
    cases h with
    | operatorFails hfails => exact .inl ⟨_, rfl, hfails⟩
    | notCallable hf hcallee =>
      exact .inr ⟨_, _, hf, (settles_evalCall_iff_of_none hcallee).2 ⟨rfl, rfl⟩⟩
    | wrongCount hf hcallee harity =>
      exact .inr ⟨_, _, hf, (settles_evalCall_iff_of_ne hcallee harity).2 ⟨rfl, rfl⟩⟩
    | argumentFails hf hcallee harity hargs hbefore harg =>
      have hfails := settles_evalAll_error_iff.2 ⟨_, _, _, _, _, hargs, hbefore, harg⟩
      exact .inr ⟨_, _, hf, (settles_evalCall_iff_of_eq hcallee harity).2 (.inl ⟨_, rfl, hfails⟩)⟩
    | applied hf hcallee harity hall happlies =>
      exact .inr ⟨_, _, hf,
        (settles_evalCall_iff_of_eq hcallee harity).2 (.inr ⟨_, _, hall, happlies⟩)⟩

/-- A call that ends does so in one of these ways, one that can end in such a way does, and it ends
in one way only. -/
theorem call_stops_at_one_point (scope : FrameId) (operator : Expr) (args : List Expr)
    (m : Machine) :
    (∀ r m', Returns scope (.call operator args) m r m' ↔ Calls scope operator args m r m') ∧
      ∀ r₁ m₁ r₂ m₂, Calls scope operator args m r₁ m₁ → Calls scope operator args m r₂ m₂ →
        r₁ = r₂ ∧ m₁ = m₂ := by
  refine ⟨fun r m' => returns_call_iff_calls, fun r₁ m₁ r₂ m₂ h₁ h₂ => ?_⟩
  exact Returns.unique (returns_call_iff_calls.2 h₁) (returns_call_iff_calls.2 h₂)

/-- Where the first of two arguments fails, the call does, and the second one assigns nothing. -/
theorem call_stops_at_one_point_cons :
    ∀ r m', Calls 0 (.literal (.primitive .cons))
      [.call (.literal (.primitive .car)) [.literal .nil],
        .special .assign [.var "x", .literal .nil]] ⟨.empty, .unlimited⟩ r m' ↔
      r = .error (.wrongType "car requires a pair, got nil") ∧ m' = ⟨.empty, .unlimited⟩ := by
  obtain ⟨hiff, hunique⟩ := call_stops_at_one_point 0 (.literal (.primitive .cons))
    [.call (.literal (.primitive .car)) [.literal .nil],
      .special .assign [.var "x", .literal .nil]] ⟨.empty, .unlimited⟩
  have hfails := (hiff (.error (.wrongType "car requires a pair, got nil"))
    ⟨.empty, .unlimited⟩).1 ⟨3, rfl⟩
  intro r m'
  constructor
  · exact fun h => hunique r m' _ _ h hfails
  · rintro ⟨rfl, rfl⟩
    exact hfails

end

end PocketLisp
