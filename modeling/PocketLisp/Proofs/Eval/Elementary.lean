import PocketLisp.Proofs.Eval.Data
import PocketLisp.Proofs.Eval.Fuel
import PocketLisp.Proofs.Store.Scopes

/-!
# Code that always ends

Only a loop and a call of a closure evaluate a part of the code more than once. Where there is
neither, evaluation goes down the expression tree and comes to an end.

## Main definitions

- `Expr.height` — how deep the parts of an expression nest
- `Expr.Elementary` — code without loops, `lambda`s and closures
- `Store.ClosureFree` — no frame binds a closure, or a list with one inside
- `Eval.Finishes` — a computation ends within its fuel, and brings about no closure

## Main statements

- `Eval.Finishes.bind` — one computation after another finishes
- `eval_finishes` — with as much fuel as its height, elementary code finishes
- `eval_ends_within_height` — with that much fuel and with more it comes to the same, and no closure
  is left

## Design notes

The operator of a call is known only when it was evaluated, and its name may have been given another
value by then. That it is no closure follows from what is bound, so evaluation must keep closures
out of the store, also where it ends with an error.

The table of closures is of no account: what no frame binds cannot be called.
-/

namespace PocketLisp

/-! ### The code -/

namespace Expr

mutual

/-- How deep the parts of an expression nest, itself included. -/
def height : Expr → Nat
  | literal _ => 1
  | var _ => 1
  | lambda _ body => body.height + 1
  | special _ args => argsHeight args + 1
  | call operator args => max operator.height (argsHeight args) + 1

/-- How deep the parts of arguments nest. -/
def argsHeight : List Expr → Nat
  | [] => 0
  | e :: es => max e.height (argsHeight es)

end

theorem height_le_argsHeight {e : Expr} {es : List Expr} (he : e ∈ es) :
    e.height ≤ argsHeight es := by
  induction es with
  | nil => cases he
  | cons d es ih =>
    rcases List.mem_cons.1 he with rfl | he
    · exact Nat.le_max_left _ _
    · exact Nat.le_trans (ih he) (Nat.le_max_right _ _)

/-- An expression that is itself no loop, no `lambda` and no constant with a closure inside. -/
def Simple : Expr → Prop
  | literal v => v.ClosureFree
  | var _ => True
  | lambda _ _ => False
  | special keyword _ => keyword ≠ .loop
  | call _ _ => True

/-- At no depth is there a loop, a `lambda` or a constant with a closure inside. The arguments of a
special form need not suit its keyword. -/
def Elementary (e : Expr) : Prop := e.All Simple

end Expr

/-- No frame binds a name to a closure, or to a value with one inside. -/
def Store.ClosureFree (s : Store) : Prop := ∀ v, s.Binds v → v.ClosureFree

/-! ### Computations that finish -/

namespace Eval

variable {α β : Type} {x : Eval α} {f : α → Eval β} {m : Machine} {good : α → Prop}
  {good' : β → Prop}

/-- The computation `x`, started on `m`, ends within its fuel. The store that it leaves, with a
value or with an error, is free of closures, and a value is `good`. -/
def Finishes (x : Eval α) (m : Machine) (good : α → Prop) : Prop :=
  match x m with
  | .value a m' => m'.store.ClosureFree ∧ good a
  | .error _ m' => m'.store.ClosureFree
  | .outOfFuel => False

theorem finishes_pure {a : α} (hm : m.store.ClosureFree) (ha : good a) :
    Finishes (pure a) m good := ⟨hm, ha⟩

theorem finishes_fail {e : Error} (hm : m.store.ClosureFree) :
    Finishes (fail e) m good := hm

theorem finishes_ofExcept {r : Except Error α} (hm : m.store.ClosureFree)
    (hr : ∀ a, r = .ok a → good a) : Finishes (ofExcept r) m good := by
  cases r with
  | ok a => exact finishes_pure hm (hr a rfl)
  | error e => exact finishes_fail hm

theorem Finishes.bind (hx : Finishes x m good)
    (hf : ∀ a m', m'.store.ClosureFree → good a → Finishes (f a) m' good') :
    Finishes (x >>= f) m good' := by
  unfold Finishes at *
  rw [bind_apply]
  cases hresult : x m with
  | value a m' =>
    rw [hresult] at hx
    exact hf a m' hx.1 hx.2
  | error e m' =>
    rw [hresult] at hx
    exact hx
  | outOfFuel =>
    rw [hresult] at hx
    exact hx.elim

/-- A computation that finishes has a result. -/
theorem Finishes.exists_ended (hx : Finishes x m good) :
    ∃ r m', x m = .ended r m' ∧ (∀ a, r = .ok a → good a) ∧ m'.store.ClosureFree := by
  unfold Finishes at hx
  cases hresult : x m with
  | value a m' =>
    rw [hresult] at hx
    refine ⟨.ok a, m', rfl, ?_, hx.1⟩
    rintro b ⟨⟩
    exact hx.2
  | error e m' =>
    rw [hresult] at hx
    exact ⟨.error e, m', rfl, nofun, hx⟩
  | outOfFuel =>
    rw [hresult] at hx
    exact hx.elim

/-! ### The operations on the machine -/

variable {scope : FrameId} {name : String} {v : Value} {args : List Value}

theorem finishes_lookup (hm : m.store.ClosureFree) :
    Finishes (lookup scope name) m Value.ClosureFree := by
  unfold Finishes lookup
  rcases hlookup : m.store.lookup scope name with ⟨v, s⟩
  obtain ⟨hv, hbound⟩ := Store.binds_lookup hlookup
  constructor
  · intro w hw
    rcases hbound w hw with hw | rfl
    · exact hm w hw
    · exact nofun
  · rcases hv with hv | rfl
    · exact hm v hv
    · exact nofun

theorem finishes_assign (hm : m.store.ClosureFree) (hv : v.ClosureFree) :
    Finishes (assign scope name v) m fun _ => True := by
  refine ⟨fun w hw => ?_, trivial⟩
  rcases Store.binds_assign hw with hw | rfl
  · exact hm w hw
  · exact hv

theorem finishes_primitive (p : Primitive) (hm : m.store.ClosureFree)
    (hargs : ∀ a ∈ args, a.ClosureFree) : Finishes (primitive p args) m Value.ClosureFree := by
  have hproper := Primitive.apply_proper p args m.out
  unfold Finishes primitive
  rcases hresult : p.apply args m.out with ⟨v | e, out⟩
  · exact hm
  · rw [hresult] at hproper
    exact ⟨hm, hproper.all (fun w hw => hw) hargs⟩

end Eval

/-! ### Evaluation -/

section

open Eval

variable {ev : Expr → Eval Value} {evalIn : FrameId → Expr → Eval Value} {scope : FrameId}
  {e : Expr} {es args : List Expr} {m : Machine}

/-- The evaluator finishes with an expression on every store that is free of closures. -/
def FinishesOn (ev : Expr → Eval Value) (e : Expr) : Prop :=
  ∀ m : Machine, m.store.ClosureFree → (ev e).Finishes m Value.ClosureFree

theorem evalAll_finishes (hes : ∀ e ∈ es, FinishesOn ev e) (hm : m.store.ClosureFree) :
    (evalAll ev es).Finishes m fun vs => ∀ v ∈ vs, v.ClosureFree := by
  induction es generalizing m with
  | nil => exact finishes_pure hm (List.forall_mem_nil _)
  | cons e es ih =>
    rw [List.forall_mem_cons] at hes
    refine (hes.1 m hm).bind fun v m' hm' hv => (ih hes.2 hm').bind fun vs m'' hm'' hvs => ?_
    exact finishes_pure hm'' (List.forall_mem_cons.2 ⟨hv, hvs⟩)

theorem evalLast_finishes (hes : ∀ d ∈ e :: es, FinishesOn ev d) (hm : m.store.ClosureFree) :
    (evalLast ev e es).Finishes m Value.ClosureFree := by
  induction es generalizing e m with
  | nil => exact hes e List.mem_cons_self m hm
  | cons e' es ih =>
    rw [List.forall_mem_cons] at hes
    exact (hes.1 m hm).bind fun _ m' hm' _ => ih hes.2 hm'

theorem evalSpecial_finishes {keyword : Keyword} (hkeyword : keyword ≠ .loop)
    (hargs : ∀ e ∈ args, FinishesOn ev e) (rounds : Nat) (hm : m.store.ClosureFree) :
    (evalSpecial ev rounds scope keyword args).Finishes m Value.ClosureFree := by
  by_cases hsuits : keyword.Suits args
  · cases keyword with
    | branch =>
      obtain ⟨condition, thenExpr, elseExpr, rfl⟩ := List.length_eq_three.1 hsuits
      refine (hargs condition (by simp) m hm).bind fun v m' hm' _ => ?_
      split
      · exact hargs elseExpr (by simp) m' hm'
      · exact hargs thenExpr (by simp) m' hm'
    | loop => exact absurd rfl hkeyword
    | assign =>
      obtain ⟨name, e, rfl⟩ := hsuits
      refine (hargs e (by simp) m hm).bind fun v m' hm' hv => ?_
      exact (finishes_assign hm' hv).bind fun _ m'' hm'' _ => finishes_pure hm'' hv
    | sequence =>
      obtain ⟨e, es, rfl⟩ := List.exists_cons_of_ne_nil hsuits
      exact evalLast_finishes hargs hm
  · rw [evalSpecial_of_not_suits hsuits]
    exact finishes_fail hm

/-- Where the operator is free of closures, nothing but a primitive operation is called. -/
theorem evalCall_finishes {operator : Value} (hoperator : operator.ClosureFree)
    (hargs : ∀ e ∈ args, FinishesOn (evalIn scope) e) (hm : m.store.ClosureFree) :
    (evalCall evalIn scope operator args).Finishes m Value.ClosureFree := by
  cases operator with
  | primitive p =>
    have hcheck : (ofExcept (p.checkArity args.length)).Finishes m fun _ => True :=
      finishes_ofExcept hm fun _ _ => trivial
    refine hcheck.bind fun _ m' hm' _ => ?_
    refine (evalAll_finishes hargs hm').bind fun values m'' hm'' hvalues => ?_
    exact finishes_primitive p hm'' hvalues
  | closure id => exact absurd rfl (hoperator id)
  | _ => exact finishes_fail hm

/-- With as much fuel as its height, elementary code finishes. -/
theorem eval_finishes {fuel : Nat} (hheight : e.height ≤ fuel) (he : e.Elementary)
    (scope : FrameId) : FinishesOn (eval fuel scope) e := by
  -- Every part of the code has less height and is evaluated with one less of fuel.
  induction fuel generalizing e with
  | zero => cases e <;> exact absurd hheight (Nat.not_succ_le_zero _)
  | succ fuel ih =>
    intro m hm
    cases e with
    | literal v => exact finishes_pure hm he
    | var name => exact finishes_lookup hm
    | lambda formals body => exact he.1.elim
    | special keyword args =>
      obtain ⟨hkeyword, hargs⟩ := Expr.all_special.1 he
      refine evalSpecial_finishes hkeyword (fun a ha => ih ?_ (hargs a ha)) fuel hm
      exact Nat.le_trans (Expr.height_le_argsHeight ha) (Nat.le_of_succ_le_succ hheight)
    | call operator args =>
      obtain ⟨-, hoperator, hargs⟩ := Expr.all_call.1 he
      have hparts := Nat.max_le.1 (Nat.le_of_succ_le_succ hheight)
      refine (ih hparts.1 hoperator m hm).bind fun f m' hm' hf => ?_
      refine evalCall_finishes hf (fun a ha => ih ?_ (hargs a ha)) hm'
      exact Nat.le_trans (Expr.height_le_argsHeight ha) hparts.2

/-- Elementary code ends, with a value or with an error, in every scope of every store that is free
of closures. Evaluations nest no deeper than the expression tree is high: fuel for that many is
enough, and more changes nothing. The value and the store that is left are free of closures
again. -/
theorem eval_ends_within_height (scope : FrameId) (he : e.Elementary)
    (hm : m.store.ClosureFree) :
    ∃ r m', (∀ fuel, e.height ≤ fuel → eval fuel scope e m = .ended r m') ∧
      (∀ v, r = .ok v → v.ClosureFree) ∧ m'.store.ClosureFree := by
  have hfinishes := eval_finishes (Nat.le_refl e.height) he scope m hm
  obtain ⟨r, m', hresult, hvalue, hstore⟩ := hfinishes.exists_ended
  refine ⟨r, m', fun fuel hfuel => ?_, hvalue, hstore⟩
  exact (eval_below hfuel scope e).ended hresult

/-- The name of an operation is given another value while its arguments are evaluated. The operation
is called all the same. -/
theorem eval_ends_within_height_reassigned :
    ∃ m', (∀ fuel, 3 ≤ fuel →
        eval fuel 0 (.call (.var "f") [.special .assign [.var "f", .literal .nil]])
            ⟨⟨#[⟨[("f", .primitive .car)], none⟩], #[]⟩, .unlimited⟩ =
          .error (.wrongType "car requires a pair, got nil") m') ∧
      m'.store.ClosureFree := by
  have hcode : (Expr.call (.var "f") [.special .assign [.var "f", .literal .nil]]).Elementary :=
    ⟨trivial, trivial, ⟨nofun, trivial, nofun, trivial⟩, trivial⟩
  have hstore : Store.ClosureFree ⟨#[⟨[("f", .primitive .car)], none⟩], #[]⟩ := by
    rintro v ⟨i, name, h⟩
    cases i with
    | zero =>
      cases List.mem_singleton.1 h
      exact nofun
    | succ i => cases h
  obtain ⟨r, m', hends, -, hfree⟩ :=
    eval_ends_within_height (m := ⟨_, .unlimited⟩) 0 hcode hstore
  have hlookup : Store.lookup ⟨#[⟨[("f", .primitive .car)], none⟩], #[]⟩ 0 "f" =
      (.primitive .car, ⟨#[⟨[("f", .primitive .car)], none⟩], #[]⟩) := by
    rw [Store.lookup, Store.get?, Store.find?, Store.chain_of_root rfl]
    rfl
  have hresult := hends 3 (by decide)
  rw [eval_succ, evalStep, bind_apply, eval_succ, evalStep, Eval.lookup, hlookup] at hresult
  refine ⟨m', fun fuel hfuel => ?_, hfree⟩
  rw [hends fuel hfuel]
  cases r with
  | ok v => cases hresult
  | error e =>
    cases hresult
    rfl

end

end PocketLisp
