import PocketLisp.Parse
import PocketLisp.Proofs.Text.Decimal

/-!
# The grammar

The rules of the grammar as relations between a list of lexemes, what its front denotes and the
lexemes that follow. Nothing here is computed: a repetition is any number of items, not as many as
there are, and a rule with several readings has them all.

## Main definitions

- `Grammar.Number`, `Grammar.Name`, `Grammar.Constant` — numbers, names and quoted constants
- `Grammar.Lambda`, `Grammar.Plain`, `Grammar.Special`, `Grammar.Rule` — the rules of
  expressions, over any meaning of the expressions inside them
- `Grammar.Expression` — the expressions that the rules derive

## Main statements

- `Grammar.Rule.congr` — what a rule derives depends on the expressions of shorter texts alone
- `Grammar.expression_iff_rule` — the derived expressions are those of the rules, over the derived
  expressions themselves
- `Grammar.eq_expression_of_iff_rule` — and no other meaning of expressions fits the rules

## Design notes

Two rules overlap with others and give way to them: a group is a call only if it is no `lambda`
and no special form, and a quote mark is a variable only if no constant follows it. So whether a
rule applies may depend on what is *not* derived inside the text, and the derived expressions
cannot be an inductive predicate. Every rule looks only at shorter texts, however, and the
derived expressions are defined by recursion on the text.
-/

namespace PocketLisp

namespace Grammar

/-- A relation between a list of lexemes, what its front denotes, and the lexemes after that. -/
abbrev Reading (α : Type) := List Lexeme → α → List Lexeme → Prop

/-- Any number of items, one after another. -/
inductive Many {α : Type} (R : Reading α) : Reading (List α)
  | nil {ls : List Lexeme} : Many R ls [] ls
  | cons {ls mid rest : List Lexeme} {x : α} {xs : List α} :
      R ls x mid → Many R mid xs rest → Many R ls (x :: xs) rest

/-- A number: a word that denotes an integer in the range of 64 bits. -/
inductive Number : Reading Word
  | atom {text : String} {n : Int} {w : Word} {ls : List Lexeme} :
      Numeral.Denotes text.toList n → Word.InRange n → w.toInt = n → Number (.atom text :: ls) w ls

/-- A name: a quote mark, or a word that denotes no integer at all, is not empty and holds no
parenthesis, semicolon or space. -/
inductive Name : Reading String
  | quote {ls : List Lexeme} : Name (.quote :: ls) "'" ls
  | atom {text : String} {ls : List Lexeme} :
      text ≠ "" → (∀ n, ¬ Numeral.Denotes text.toList n) →
      (∀ c ∈ text.toList, c ≠ '(' ∧ c ≠ ')' ∧ c ≠ ';' ∧ c ≠ ' ') → Name (.atom text :: ls) text ls

mutual

/-- A constant: a number, a name, or constants in parentheses. -/
inductive Constant : Reading Value
  | number {ls rest : List Lexeme} {n : Word} :
      Number ls n rest → Constant ls (.number n) rest
  | symbol {ls rest : List Lexeme} {x : String} :
      Name ls x rest → Constant ls (.symbol x) rest
  | list {ls rest : List Lexeme} {vs : List Value} :
      Constants ls vs (.rightParen :: rest) → Constant (.leftParen :: ls) (.ofList vs) rest

/-- Any number of constants. -/
inductive Constants : Reading (List Value)
  | nil {ls : List Lexeme} : Constants ls [] ls
  | cons {ls mid rest : List Lexeme} {v : Value} {vs : List Value} :
      Constant ls v mid → Constants mid vs rest → Constants ls (v :: vs) rest

end

/-- A `lambda`: names in parentheses and a body. -/
inductive Lambda (E : Reading Expr) : Reading Expr
  | mk {ls mid rest : List Lexeme} {formals : List String} {body : Expr} :
      Many Name ls formals (.rightParen :: mid) → E mid body (.rightParen :: rest) →
      Lambda E (.leftParen :: .atom "lambda" :: .leftParen :: ls) (.lambda formals body) rest

/-- An expression whose value depends on no variable: a number, a quoted constant or a
`lambda`. -/
inductive Plain (E : Reading Expr) : Reading Expr
  | number {ls rest : List Lexeme} {n : Word} :
      Number ls n rest → Plain E ls (.literal (.number n)) rest
  | quoted {ls rest : List Lexeme} {v : Value} :
      Constant ls v rest → Plain E (.quote :: ls) (.literal v) rest
  | lambda {ls rest : List Lexeme} {e : Expr} : Lambda E ls e rest → Plain E ls e rest

/-- A special form: a keyword with the arguments that suit it. -/
inductive Special (E : Reading Expr) : Reading Expr
  | branch {ls rest : List Lexeme} {c t f : Expr} :
      Many E ls [c, t, f] (.rightParen :: rest) →
      Special E (.leftParen :: .atom "if" :: ls) (.special .branch [c, t, f]) rest
  | loop {ls rest : List Lexeme} {c b : Expr} :
      Many E ls [c, b] (.rightParen :: rest) →
      Special E (.leftParen :: .atom "while" :: ls) (.special .loop [c, b]) rest
  | assign {ls mid rest : List Lexeme} {x : String} {e : Expr} :
      Name ls x mid → E mid e (.rightParen :: rest) →
      Special E (.leftParen :: .atom "set" :: ls) (.special .assign [.var x, e]) rest
  | sequence {ls rest : List Lexeme} {e : Expr} {es : List Expr} :
      Many E ls (e :: es) (.rightParen :: rest) →
      Special E (.leftParen :: .atom "begin" :: ls) (.special .sequence (e :: es)) rest

/-- The rules of expressions, over the meaning `E` of the expressions inside them. -/
inductive Rule (E : Reading Expr) : Reading Expr
  | plain {ls rest : List Lexeme} {e : Expr} : Plain E ls e rest → Rule E ls e rest
  | name {ls rest : List Lexeme} {x : String} :
      Name ls x rest → (∀ ls', ls = .quote :: ls' → ∀ v rest', ¬ Constant ls' v rest') →
      Rule E ls (.var x) rest
  | special {ls rest : List Lexeme} {e : Expr} : Special E ls e rest → Rule E ls e rest
  | call {ls rest : List Lexeme} {f : Expr} {args : List Expr} :
      (∀ e' rest', ¬ Lambda E (.leftParen :: ls) e' rest') →
      (∀ e' rest', ¬ Special E (.leftParen :: ls) e' rest') →
      Many E ls (f :: args) (.rightParen :: rest) →
      Rule E (.leftParen :: ls) (.call f args) rest

/-- The expressions that the rules derive. -/
def Expression (ls : List Lexeme) : Expr → List Lexeme → Prop :=
  Rule (fun ls' e rest => ∃ _ : ls'.length < ls.length, Expression ls' e rest) ls
termination_by ls.length

/-- The plain expressions among them. -/
def PlainExpression : Reading Expr := Plain Expression

theorem many_singleton_iff {α : Type} {R : Reading α} {ls rest : List Lexeme} {x : α} :
    Many R ls [x] rest ↔ R ls x rest := by
  constructor
  · rintro (_ | ⟨hx, hnil⟩)
    cases hnil
    exact hx
  · intro hx
    exact .cons hx .nil

variable {ls rest : List Lexeme}

/-! ### Numbers and names -/

theorem Number.of_read? {text : String} {w : Word} (h : Numeral.read? text = some w) :
    Number (.atom text :: ls) w ls :=
  .atom (Numeral.read?_eq_some_iff.1 h) (Word.inRange_toInt w) rfl

theorem Name.of_isName {text : String} (h : isName text = true) :
    Name (.atom text :: ls) text ls := by
  obtain ⟨hne, hdenotes, hsolid⟩ := isName_iff.1 h
  exact .atom hne hdenotes hsolid

/-! ### Every rule uses up lexemes -/

theorem Number.length_lt {n : Word} (h : Number ls n rest) : rest.length < ls.length := by
  cases h
  simp

theorem Name.length_lt {x : String} (h : Name ls x rest) : rest.length < ls.length := by
  cases h <;> simp

mutual

theorem Constant.length_lt :
    ∀ {ls : List Lexeme} {v : Value} {rest : List Lexeme}, Constant ls v rest →
      rest.length < ls.length
  | _, _, _, .number h => h.length_lt
  | _, _, _, .symbol h => h.length_lt
  | _, _, _, .list h => by
    have := h.length_le
    simp only [List.length_cons] at this ⊢
    omega

theorem Constants.length_le :
    ∀ {ls : List Lexeme} {vs : List Value} {rest : List Lexeme}, Constants ls vs rest →
      rest.length ≤ ls.length
  | _, _, _, .nil => Nat.le_refl _
  | _, _, _, .cons h hs => Nat.le_trans hs.length_le (Nat.le_of_lt h.length_lt)

end

/-- On texts shorter than `n`, an item uses up lexemes. -/
def Consumes {α : Type} (R : Reading α) (n : Nat) : Prop :=
  ∀ ls x rest, ls.length < n → R ls x rest → rest.length < ls.length

/-- On texts shorter than `n`, two relations are the same. -/
def Agree {α : Type} (R R' : Reading α) (n : Nat) : Prop :=
  ∀ ls x rest, ls.length < n → (R ls x rest ↔ R' ls x rest)

theorem Consumes.of_agree {α : Type} {R R' : Reading α} {n : Nat} (h : Consumes R n)
    (hagree : Agree R R' n) : Consumes R' n :=
  fun ls x rest hlt hx => h ls x rest hlt ((hagree ls x rest hlt).2 hx)

theorem Agree.symm {α : Type} {R R' : Reading α} {n : Nat} (h : Agree R R' n) : Agree R' R n :=
  fun ls x rest hlt => (h ls x rest hlt).symm

theorem name_consumes (n : Nat) : Consumes Name n := fun _ _ _ _ h => h.length_lt

section
variable {α : Type} {R R' : Reading α} {xs : List α} {n : Nat}

theorem Many.length_le (hR : Consumes R n) (h : Many R ls xs rest) (hlt : ls.length < n) :
    rest.length ≤ ls.length := by
  induction h with
  | nil => exact Nat.le_refl _
  | cons hx _ ih =>
    have := hR _ _ _ hlt hx
    have := ih (by omega)
    omega

theorem Many.imp (hR : Consumes R n) (hagree : Agree R R' n) (h : Many R ls xs rest)
    (hlt : ls.length < n) : Many R' ls xs rest := by
  induction h with
  | nil => exact .nil
  | cons hx _ ih =>
    have := hR _ _ _ hlt hx
    exact .cons ((hagree _ _ _ hlt).1 hx) (ih (by omega))

end

section
variable {E E' : Reading Expr} {e : Expr}

theorem Lambda.length_lt (hE : Consumes E ls.length) (h : Lambda E ls e rest) :
    rest.length < ls.length := by
  cases h with
  | mk hformals hbody =>
    have hle := hformals.length_le (name_consumes _) (Nat.lt_succ_self _)
    simp only [List.length_cons] at hle hE ⊢
    have := hE _ _ _ (by omega) hbody
    simp only [List.length_cons] at this
    omega

theorem Special.length_lt (hE : Consumes E ls.length) (h : Special E ls e rest) :
    rest.length < ls.length := by
  cases h with
  | branch hargs | loop hargs | sequence hargs =>
    have := hargs.length_le hE (by simp only [List.length_cons]; omega)
    simp only [List.length_cons] at this ⊢
    omega
  | assign hname hvalue =>
    have := hname.length_lt
    have := hE _ _ _ (by simp only [List.length_cons]; omega) hvalue
    simp only [List.length_cons] at this ⊢
    omega

theorem Plain.length_lt (hE : Consumes E ls.length) (h : Plain E ls e rest) :
    rest.length < ls.length := by
  cases h with
  | number h => exact h.length_lt
  | quoted h => exact Nat.lt_succ_of_lt h.length_lt
  | lambda h => exact h.length_lt hE

theorem Rule.length_lt (hE : Consumes E ls.length) (h : Rule E ls e rest) :
    rest.length < ls.length := by
  cases h with
  | plain h => exact h.length_lt hE
  | name h => exact h.length_lt
  | special h => exact h.length_lt hE
  | call _ _ h =>
    have := h.length_le hE (by simp)
    simp only [List.length_cons] at this ⊢
    omega

/-! ### The rules look at shorter texts alone -/

theorem Lambda.imp (hagree : Agree E E' ls.length) (h : Lambda E ls e rest) :
    Lambda E' ls e rest := by
  cases h with
  | mk hformals hbody =>
    have := hformals.length_le (name_consumes _) (Nat.lt_succ_self _)
    simp only [List.length_cons] at this
    exact .mk hformals ((hagree _ _ _ (by simp only [List.length_cons]; omega)).1 hbody)

theorem Special.imp (hE : Consumes E ls.length) (hagree : Agree E E' ls.length)
    (h : Special E ls e rest) : Special E' ls e rest := by
  cases h with
  | branch h => exact .branch (h.imp hE hagree (by simp only [List.length_cons]; omega))
  | loop h => exact .loop (h.imp hE hagree (by simp only [List.length_cons]; omega))
  | assign hname hvalue =>
    have := hname.length_lt
    exact .assign hname ((hagree _ _ _ (by simp only [List.length_cons]; omega)).1 hvalue)
  | sequence h => exact .sequence (h.imp hE hagree (by simp only [List.length_cons]; omega))

theorem Plain.imp (hagree : Agree E E' ls.length) (h : Plain E ls e rest) :
    Plain E' ls e rest := by
  cases h with
  | number h => exact .number h
  | quoted h => exact .quoted h
  | lambda h => exact .lambda (h.imp hagree)

theorem Rule.imp (hE : Consumes E ls.length) (hagree : Agree E E' ls.length)
    (h : Rule E ls e rest) : Rule E' ls e rest := by
  cases h with
  | plain h => exact .plain (h.imp hagree)
  | name h hquote => exact .name h hquote
  | special h => exact .special (h.imp hE hagree)
  | call hlambda hspecial h =>
    refine .call ?_ ?_ (h.imp hE hagree (by simp))
    · exact fun e' rest' h' => hlambda e' rest' (h'.imp hagree.symm)
    · exact fun e' rest' h' => hspecial e' rest' (h'.imp (hE.of_agree hagree) hagree.symm)

/-- What a rule derives depends on the expressions of shorter texts alone. -/
theorem Rule.congr (hE : Consumes E ls.length) (hagree : Agree E E' ls.length) :
    Rule E ls e rest ↔ Rule E' ls e rest :=
  ⟨Rule.imp hE hagree, Rule.imp (hE.of_agree hagree) hagree.symm⟩

/-- A meaning of expressions that fits the rules uses up lexemes. -/
theorem length_lt_of_iff_rule (h : ∀ ls e rest, E ls e rest ↔ Rule E ls e rest) (ls : List Lexeme)
    (e : Expr) (rest : List Lexeme) (he : E ls e rest) : rest.length < ls.length := by
  induction hn : ls.length using Nat.strongRecOn generalizing ls e rest with
  | ind n ih =>
    subst hn
    refine ((h ls e rest).1 he).length_lt fun ls' e' rest' hlt he' => ?_
    exact ih ls'.length hlt ls' e' rest' he' rfl

end

/-! ### The derived expressions -/

theorem Expression.length_lt {e : Expr} (h : Expression ls e rest) : rest.length < ls.length := by
  induction hn : ls.length using Nat.strongRecOn generalizing ls e rest with
  | ind n ih =>
    subst hn
    rw [Expression] at h
    refine h.length_lt fun ls' e' rest' hlt he' => ?_
    exact ih ls'.length hlt he'.2 rfl

/-- The derived expressions are those of the rules, over the derived expressions themselves. -/
theorem expression_iff_rule {e : Expr} : Expression ls e rest ↔ Rule Expression ls e rest := by
  rw [Expression]
  refine Rule.congr (fun ls' e' rest' _ h => h.2.length_lt) fun ls' e' rest' hlt => ?_
  exact ⟨fun h => h.2, fun h => ⟨hlt, h⟩⟩

/-- No other meaning of expressions fits the rules. -/
theorem eq_expression_of_iff_rule {E : Reading Expr}
    (h : ∀ ls e rest, E ls e rest ↔ Rule E ls e rest) (ls : List Lexeme) (e : Expr)
    (rest : List Lexeme) : E ls e rest ↔ Expression ls e rest := by
  induction hn : ls.length using Nat.strongRecOn generalizing ls e rest with
  | ind n ih =>
    subst hn
    rw [h, expression_iff_rule]
    refine Rule.congr ?_ fun ls' e' rest' hlt => ih ls'.length hlt ls' e' rest' rfl
    exact fun ls' e' rest' _ he' => length_lt_of_iff_rule h ls' e' rest' he'

end Grammar

end PocketLisp
