import PocketLisp.Expr
import PocketLisp.Proofs.Primitive.Answers

/-!
# Closures inside values and code

A value may have closures inside it, and so may the constants of code that was put together by hand.

## Main definitions

- `Value.HasClosure`, `Expr.HasClosure` — a closure is inside a value, and inside a constant of code

## Main statements

- `Primitive.Answer.hasClosure` — what an operation answers with has no other closures inside it
  than its arguments
-/

namespace PocketLisp

/-- The closure is the value, or inside it. -/
def Value.HasClosure (id : ClosureId) : Value → Prop
  | pair car cdr => car.HasClosure id ∨ cdr.HasClosure id
  | closure i => i = id
  | _ => False

namespace Expr

mutual

/-- The closure is inside a constant of the expression, at any depth. -/
def HasClosure (id : ClosureId) : Expr → Prop
  | literal v => v.HasClosure id
  | var _ => False
  | lambda _ body => body.HasClosure id
  | special _ args => AnyHasClosure id args
  | call operator args => operator.HasClosure id ∨ AnyHasClosure id args

/-- The closure is inside a constant of one of the expressions. -/
def AnyHasClosure (id : ClosureId) : List Expr → Prop
  | [] => False
  | e :: es => e.HasClosure id ∨ AnyHasClosure id es

end

variable {id : ClosureId} {e operator : Expr} {args es : List Expr} {keyword : Keyword}

theorem anyHasClosure_of_mem (he : e ∈ es) (h : e.HasClosure id) : AnyHasClosure id es := by
  induction es with
  | nil => cases he
  | cons d es ih =>
    rcases List.mem_cons.1 he with rfl | he
    · exact .inl h
    · exact .inr (ih he)

theorem hasClosure_special (he : e ∈ args) (h : e.HasClosure id) :
    (special keyword args).HasClosure id :=
  anyHasClosure_of_mem he h

theorem hasClosure_call (he : e ∈ operator :: args) (h : e.HasClosure id) :
    (call operator args).HasClosure id :=
  anyHasClosure_of_mem he h

end Expr

/-- What an operation answers with has no other closures inside it than its arguments. -/
theorem Primitive.Answer.hasClosure {args : List Value} {v : Value} {id : ClosureId}
    (h : Answer args v) (hv : v.HasClosure id) : ∃ a ∈ args, a.HasClosure id := by
  cases h with
  | number n => exact hv.elim
  | truth b => cases b <;> exact hv.elim
  | single ha => exact ⟨_, ha, hv.resolve_right not_false⟩
  | cons ha htail =>
    rcases hv with hv | hv
    · exact ⟨_, ha, hv⟩
    · exact ⟨_, htail, hv⟩
  | car h => exact ⟨_, h, .inl hv⟩
  | cdr h => exact ⟨_, h, .inr hv⟩
  | same h => exact ⟨_, h, hv⟩

end PocketLisp
