import PocketLisp.Proofs.Grammar.Acceptance

/-!
# Properties of all parts of a value and of an expression

## Main definitions

- `Value.All`, `Expr.All` — a property of a value or an expression and of all its parts
- `Keyword.Suits` — the arguments that a keyword can be evaluated with
- `Value.ClosureFree` — no part is a closure
- `Expr.WellFormed` — the arguments of every special form suit its keyword, and constants are data
- `Expr.Derived` — what the grammar says of a single expression

## Main statements

- `Grammar.Expression.derived` — it says so of every part of what it derives
- `Grammar.Expression.wellFormed` — the grammar derives well-formed expressions alone
-/

namespace PocketLisp

/-! ### Values -/

namespace Value

/-- `p` holds of a value and of everything inside it. -/
def All (p : Value → Prop) : Value → Prop
  | pair car cdr => p (pair car cdr) ∧ car.All p ∧ cdr.All p
  | v => p v

variable {p q : Value → Prop} {v car cdr : Value}

theorem All.imp (hpq : ∀ w, p w → q w) (h : v.All p) : v.All q := by
  induction v with
  | pair car cdr ihcar ihcdr => exact ⟨hpq _ h.1, ihcar h.2.1, ihcdr h.2.2⟩
  | _ => exact hpq _ h

theorem all_ofList (hnil : p nil) (hpair : ∀ a d, p (pair a d)) {vs : List Value}
    (h : ∀ v ∈ vs, v.All p) : (ofList vs).All p := by
  induction vs with
  | nil => exact hnil
  | cons v vs ih =>
    rw [List.forall_mem_cons] at h
    exact ⟨hpair _ _, h.1, ih h.2⟩

/-- No part of the value is a closure. -/
def ClosureFree (v : Value) : Prop := v.All fun w => ∀ id, w ≠ closure id

end Value

/-! ### Expressions -/

/-- The arguments that a keyword can be evaluated with. -/
def Keyword.Suits : Keyword → List Expr → Prop
  | branch, args => args.length = 3
  | loop, args => args.length = 2
  | assign, args => ∃ name e, args = [.var name, e]
  | sequence, args => args ≠ []

namespace Expr

mutual

/-- `p` holds of an expression and of everything inside it, the bodies of `lambda`s included. -/
def All (p : Expr → Prop) : Expr → Prop
  | literal v => p (literal v)
  | var name => p (var name)
  | lambda formals body => p (lambda formals body) ∧ body.All p
  | special keyword args => p (special keyword args) ∧ AllArgs p args
  | call operator args => p (call operator args) ∧ operator.All p ∧ AllArgs p args

/-- `p` holds of all of several expressions and of everything inside them. -/
def AllArgs (p : Expr → Prop) : List Expr → Prop
  | [] => True
  | e :: es => e.All p ∧ AllArgs p es

end

theorem allArgs_iff {p : Expr → Prop} {es : List Expr} : AllArgs p es ↔ ∀ e ∈ es, e.All p := by
  induction es with
  | nil => simp [AllArgs]
  | cons e es ih => simp [AllArgs, ih]

variable {p q : Expr → Prop} {e body f : Expr} {es args : List Expr} {formals : List String}
  {keyword : Keyword}

theorem all_lambda : (lambda formals body).All p ↔ p (lambda formals body) ∧ body.All p := Iff.rfl

theorem all_special :
    (special keyword args).All p ↔ p (special keyword args) ∧ ∀ e ∈ args, e.All p := by
  rw [All, allArgs_iff]

theorem all_call :
    (call f args).All p ↔ p (call f args) ∧ f.All p ∧ ∀ e ∈ args, e.All p := by
  rw [All, allArgs_iff]

mutual

theorem All.mono (hpq : ∀ e, p e → q e) : ∀ {e : Expr}, e.All p → e.All q
  | literal _, h => hpq _ h
  | var _, h => hpq _ h
  | lambda _ _, h => ⟨hpq _ h.1, h.2.mono hpq⟩
  | special _ _, h => ⟨hpq _ h.1, h.2.mono hpq⟩
  | call _ _, h => ⟨hpq _ h.1, h.2.1.mono hpq, h.2.2.mono hpq⟩

theorem AllArgs.mono (hpq : ∀ e, p e → q e) : ∀ {es : List Expr}, AllArgs p es → AllArgs q es
  | [], _ => trivial
  | _ :: _, h => ⟨h.1.mono hpq, h.2.mono hpq⟩

end

/-- What an expression itself must be like to be evaluated as code. -/
def Fits : Expr → Prop
  | literal v => v.ClosureFree
  | special keyword args => keyword.Suits args
  | _ => True

/-- At every depth, the arguments of a special form suit its keyword, and a constant is data. -/
def WellFormed (e : Expr) : Prop := e.All Fits

theorem wellFormed_lambda : (lambda formals body).WellFormed ↔ body.WellFormed :=
  all_lambda.trans (and_iff_right trivial)

theorem wellFormed_special :
    (special keyword args).WellFormed ↔ keyword.Suits args ∧ ∀ e ∈ args, e.WellFormed :=
  all_special

theorem wellFormed_call :
    (call f args).WellFormed ↔ f.WellFormed ∧ ∀ e ∈ args, e.WellFormed :=
  all_call.trans (and_iff_right trivial)

/-- What an expression itself is like when the grammar derives it. -/
def Derived : Expr → Prop
  | literal v => ∃ ls rest, Grammar.Constant ls v rest
  | special keyword args => keyword.Suits args
  | _ => True

end Expr

/-! ### What the grammar derives -/

namespace Grammar

mutual

/-- A quoted constant holds no closure. -/
theorem Constant.closureFree :
    ∀ {ls : List Lexeme} {v : Value} {rest : List Lexeme}, Constant ls v rest → v.ClosureFree
  | _, _, _, .number _ => fun _ h => nomatch h
  | _, _, _, .symbol _ => fun _ h => nomatch h
  | _, _, _, .list h =>
    Value.all_ofList (fun _ h => nomatch h) (fun _ _ _ h => nomatch h) h.closureFree

theorem Constants.closureFree :
    ∀ {ls : List Lexeme} {vs : List Value} {rest : List Lexeme}, Constants ls vs rest →
      ∀ v ∈ vs, v.ClosureFree
  | _, _, _, .nil => nofun
  | _, _, _, .cons h hs => List.forall_mem_cons.2 ⟨h.closureFree, hs.closureFree⟩

end

variable {E : Reading Expr} {ls rest : List Lexeme} {e : Expr} {es : List Expr} {n : Nat}

theorem Many.forall_mem {α : Type} {R : Reading α} {xs : List α} {p : α → Prop}
    (hR : Consumes R n) (hp : ∀ ls x rest, ls.length < n → R ls x rest → p x)
    (h : Many R ls xs rest) (hlt : ls.length < n) : ∀ x ∈ xs, p x := by
  induction h with
  | nil => exact nofun
  | cons hx _ ih =>
    have := hR _ _ _ hlt hx
    exact List.forall_mem_cons.2 ⟨hp _ _ _ hlt hx, ih (by omega)⟩

/-- What holds of every single expression that the grammar derives holds of all parts of what a rule
derives, when it holds of all parts of what the rule takes. -/
theorem Rule.derived (hE : Consumes E ls.length)
    (hparts : ∀ ls' e' rest', ls'.length < ls.length → E ls' e' rest' → e'.All Expr.Derived)
    (h : Rule E ls e rest) : e.All Expr.Derived := by
  cases h with
  | plain h =>
    cases h with
    | number hn => exact ⟨_, _, .number hn⟩
    | quoted hv => exact ⟨_, _, hv⟩
    | lambda h =>
      cases h with
      | mk hformals hbody =>
        have := hformals.length_le (name_consumes _) (Nat.lt_succ_self _)
        simp only [List.length_cons] at this
        have hbody := hparts _ _ _ (by simp only [List.length_cons]; omega) hbody
        exact Expr.all_lambda.2 ⟨trivial, hbody⟩
  | name _ _ => exact trivial
  | special h =>
    cases h with
    | branch h | loop h =>
      have hargs := h.forall_mem hE hparts (by simp only [List.length_cons]; omega)
      exact Expr.all_special.2 ⟨rfl, hargs⟩
    | assign hname hvalue =>
      have := hname.length_lt
      have hvalue := hparts _ _ _ (by simp only [List.length_cons]; omega) hvalue
      refine Expr.all_special.2 ⟨⟨_, _, rfl⟩, List.forall_mem_cons.2 ⟨trivial, ?_⟩⟩
      exact List.forall_mem_singleton.2 hvalue
    | sequence h =>
      have hargs := h.forall_mem hE hparts (by simp only [List.length_cons]; omega)
      exact Expr.all_special.2 ⟨nofun, hargs⟩
  | call _ _ h =>
    have hall := h.forall_mem hE hparts (by simp)
    exact Expr.all_call.2 ⟨trivial, List.forall_mem_cons.1 hall⟩

/-- Every part of what the grammar derives is like what it derives. -/
theorem Expression.derived (h : Expression ls e rest) : e.All Expr.Derived := by
  induction hn : ls.length using Nat.strongRecOn generalizing ls e rest with
  | ind n ih =>
    subst hn
    refine (expression_iff_rule.1 h).derived (fun _ _ _ _ h => h.length_lt) ?_
    exact fun ls' e' rest' hlt h' => ih ls'.length hlt h' rfl

/-- The grammar derives well-formed expressions alone. -/
theorem Expression.wellFormed (h : Expression ls e rest) : e.WellFormed := by
  refine h.derived.mono fun e he => ?_
  cases e with
  | literal v =>
    obtain ⟨_, _, hv⟩ := he
    exact hv.closureFree
  | special keyword args => exact he
  | _ => trivial

end Grammar

/-- What the parser accepts is well formed. -/
theorem wellFormed_of_parse {ls : List Lexeme} {e : Expr} (h : parse ls = .ok e) :
    e.WellFormed :=
  (parse_eq_ok_iff.1 h).wellFormed

end PocketLisp
