import PocketLisp.Proofs.Code.Parts

/-!
# Renaming a formal

A formal of a `lambda` gets another name, there and wherever the body refers to it.

## Main definitions

- `renameName`, `Expr.rename` — one name in place of another one, up to the `lambda`s that have the
  other one among their own formals
- `Expr.Avoids` — a name occurs nowhere in an expression
- `Expr.RenamedIn` — two expressions that differ in the name of a formal of one `lambda`
- `Zone`, `Zone.Names`, `Zone.Codes` — how names and code differ, in the `lambda` and elsewhere

## Main statements

- `renameName_inj` — names that are not the new one stay apart
- `Expr.avoids_lambda`, `Expr.avoids_special`, `Expr.avoids_call` — where a name must not occur
-/

namespace PocketLisp

/-! ### Names -/

/-- The name `y` in place of `x`, and every other name for itself. -/
def renameName (x y name : String) : String := if name = x then y else name

variable {x y name name' : String}

theorem renameName_of_ne (h : name ≠ x) : renameName x y name = name := if_neg h

/-- Names that are not the new one stay apart. -/
theorem renameName_inj (h : name ≠ y) (h' : name' ≠ y) :
    renameName x y name = renameName x y name' ↔ name = name' := by
  unfold renameName
  by_cases hx : name = x
  · by_cases hx' : name' = x
    · simp [hx, hx']
    · rw [if_pos hx, if_neg hx']
      exact ⟨fun heq => absurd heq.symm h', fun heq => absurd (heq ▸ hx) hx'⟩
  · by_cases hx' : name' = x
    · rw [if_neg hx, if_pos hx']
      exact ⟨fun heq => absurd heq h, fun heq => absurd (heq ▸ hx') hx⟩
    · rw [if_neg hx, if_neg hx']

/-! ### Expressions -/

namespace Expr

mutual

/-- The expression with `y` in place of the variable `x`. A `lambda` with the formal `x` has an `x`
of its own, which is another variable. -/
def rename (x y : String) : Expr → Expr
  | literal v => literal v
  | var name => var (renameName x y name)
  | lambda formals body => lambda formals (if x ∈ formals then body else body.rename x y)
  | special keyword args => special keyword (renameAll x y args)
  | call operator args => call (operator.rename x y) (renameAll x y args)

/-- The expressions, each with `y` in place of the variable `x`. -/
def renameAll (x y : String) : List Expr → List Expr
  | [] => []
  | e :: es => e.rename x y :: renameAll x y es

end

theorem renameAll_eq_map (x y : String) (es : List Expr) :
    renameAll x y es = es.map (rename x y) := by
  induction es with
  | nil => rfl
  | cons e es ih => rw [renameAll, ih, List.map_cons]

/-- What a name has to do with an expression itself when it does not occur there. -/
def Lacks (y : String) : Expr → Prop
  | var name => name ≠ y
  | lambda formals _ => y ∉ formals
  | _ => True

/-- The name occurs nowhere in the expression: not as a formal, and not as a variable, be it read or
assigned. -/
def Avoids (y : String) (e : Expr) : Prop := e.All (Lacks y)

variable {e e' body body' f f' : Expr} {args : List Expr} {formals : List String}
  {keyword : Keyword}

theorem avoids_lambda : (lambda formals body).Avoids y ↔ y ∉ formals ∧ body.Avoids y := all_lambda

theorem avoids_special : (special keyword args).Avoids y ↔ ∀ e ∈ args, e.Avoids y :=
  all_special.trans (and_iff_right trivial)

theorem avoids_call : (call f args).Avoids y ↔ f.Avoids y ∧ ∀ e ∈ args, e.Avoids y :=
  all_call.trans (and_iff_right trivial)

/-- The two expressions are the same but for one `lambda` with the formal `x`, in which the new name
`y` does not occur. There they differ in the name of that formal. -/
inductive RenamedIn (x y : String) : Expr → Expr → Prop
  | here {formals : List String} {body : Expr} :
      x ∈ formals → (lambda formals body).Avoids y →
        RenamedIn x y (lambda formals body)
          (lambda (formals.map (renameName x y)) (body.rename x y))
  | body {formals : List String} {body body' : Expr} :
      RenamedIn x y body body' → RenamedIn x y (lambda formals body) (lambda formals body')
  | part {keyword : Keyword} {before after : List Expr} {e e' : Expr} :
      RenamedIn x y e e' →
        RenamedIn x y (special keyword (before ++ e :: after))
          (special keyword (before ++ e' :: after))
  | operator {f f' : Expr} {args : List Expr} :
      RenamedIn x y f f' → RenamedIn x y (call f args) (call f' args)
  | argument {f e e' : Expr} {before after : List Expr} :
      RenamedIn x y e e' →
        RenamedIn x y (call f (before ++ e :: after)) (call f (before ++ e' :: after))

end Expr

/-! ### Zones -/

/-- Where code stands to the `lambda` of which a formal is renamed. -/
inductive Zone where
  /-- Outside the `lambda`, which may be a part of it. -/
  | outside
  /-- In the `lambda`, where the formal has the new name. -/
  | renamed
  /-- In the `lambda`, within another one that has the same formal. -/
  | shadowed

namespace Zone

/-- How a name that code refers to differs. -/
def Names (x y : String) : Zone → String → String → Prop
  | outside, name, name' => name' = name
  | renamed, name, name' => name ≠ y ∧ name' = renameName x y name
  | shadowed, name, name' => name ≠ y ∧ name' = name

/-- How code differs. -/
def Codes (x y : String) : Zone → Expr → Expr → Prop
  | outside, e, e' => e' = e ∨ e.RenamedIn x y e'
  | renamed, e, e' => e.Avoids y ∧ e' = e.rename x y
  | shadowed, e, e' => e.Avoids y ∧ e' = e

theorem Codes.names {zone : Zone} (h : zone.Codes x y (.var name) (.var name')) :
    zone.Names x y name name' := by
  cases zone with
  | outside =>
    rcases h with heq | h
    · exact (Expr.var.inj heq)
    · cases h
  | renamed => exact ⟨h.1, Expr.var.inj h.2⟩
  | shadowed => exact ⟨h.1, Expr.var.inj h.2⟩

end Zone

end PocketLisp
