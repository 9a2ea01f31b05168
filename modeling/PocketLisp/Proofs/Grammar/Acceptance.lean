import PocketLisp.Proofs.Grammar.Expressions

/-!
# What is read is what the grammar derives

## Main definitions

- `expressionAt`, `valueAt`, `constantAt` — what stands at a place of a text, and the place after it
- `Grammar.At` — a relation on texts, between two places of a text

## Main statements

- `Grammar.taken_iff_rule` — the expressions taken fit the rules
- `takeExpr?_eq_some_iff`, `takeValueExpr?_eq_some_iff` — they are those that the grammar derives
- `reads_iff_derives` — the same at every place of a text, and for whole forms
-/

namespace PocketLisp

namespace Tree

/-! ### Groups by their items -/

/-- The items of a `lambda`. -/
inductive LambdaItems : List Tree → Expr → Prop
  | mk {formals body : List Tree} {names : List String} {e : Expr} :
      formals.mapM name? = some names → exprs? body = some [e] →
      LambdaItems (leaf (.atom "lambda") :: group formals :: body) (.lambda names e)

/-- The items of a special form. -/
inductive SpecialItems : List Tree → Expr → Prop
  | branch {args : List Tree} {c t f : Expr} : exprs? args = some [c, t, f] →
      SpecialItems (leaf (.atom "if") :: args) (.special .branch [c, t, f])
  | loop {args : List Tree} {c b : Expr} : exprs? args = some [c, b] →
      SpecialItems (leaf (.atom "while") :: args) (.special .loop [c, b])
  | assign {l : Lexeme} {args : List Tree} {x : String} {e : Expr} :
      l.name? = some x → exprs? args = some [e] →
      SpecialItems (leaf (.atom "set") :: leaf l :: args) (.special .assign [.var x, e])
  | sequence {args : List Tree} {e : Expr} {es : List Expr} : exprs? args = some (e :: es) →
      SpecialItems (leaf (.atom "begin") :: args) (.special .sequence (e :: es))

variable {items : List Tree} {e : Expr} {es : List Expr}

theorem expr?_of_lambdaItems (h : LambdaItems items e) : (group items).expr? = some e := by
  cases h with
  | mk hnames hbody => simp [expr?, binder?, hnames, hbody]

theorem exprs?_name_cons {l : Lexeme} {x : String} (hl : l.name? = some x) (hquote : l ≠ .quote)
    (h : exprs? items = some es) : exprs? (leaf l :: items) = some (.var x :: es) := by
  have hvar : (leaf l).expr? = some (.var x) := Grammar.expr?_eq_some_iff.2 (.inr ⟨x, hl, rfl⟩)
  exact (exprs?_cons_eq_some_iff (by simpa using hquote)).2 ⟨_, es, hvar, h, rfl⟩

theorem expr?_of_specialItems (h : SpecialItems items e) : (group items).expr? = some e := by
  -- The keyword is first read as a variable in front of the arguments.
  cases h with
  | branch h =>
    have := exprs?_name_cons (l := .atom "if") rfl (by decide) h
    simp [expr?, binder?, this, Expr.ofItems?, Expr.headed]
  | loop h =>
    have := exprs?_name_cons (l := .atom "while") rfl (by decide) h
    simp [expr?, binder?, this, Expr.ofItems?, Expr.headed]
  | sequence h =>
    have := exprs?_name_cons (l := .atom "begin") rfl (by decide) h
    simp [expr?, binder?, this, Expr.ofItems?, Expr.headed]
  | @assign l _ _ _ hl h =>
    cases l with
    | quote => cases hl; simp [expr?, binder?, h]
    | atom text =>
      have := exprs?_name_cons (l := .atom "set") rfl (by decide)
        (exprs?_name_cons hl (by simp) h)
      simp [expr?, binder?, this, Expr.ofItems?, Expr.headed]
    | _ => cases hl

theorem binder?_eq_some (h : binder? items = some e) :
    LambdaItems items e ∨ SpecialItems items e := by
  unfold binder? at h
  split at h
  · split at h
    · next hnames hbody => cases h; exact .inl (.mk hnames hbody)
    · cases h
  · split at h
    · next hargs => cases h; exact .inr (.assign rfl hargs)
    · cases h
  · cases h

/-- A group is never a variable. -/
theorem expr?_group_ne_var {x : String} : (group items).expr? ≠ some (.var x) := by
  intro h
  rw [expr?] at h
  split at h
  · next e' hbinder =>
    cases h
    rcases binder?_eq_some hbinder with h | h <;> cases h
  · obtain ⟨es, -, hes⟩ := Option.bind_eq_some_iff.1 h
    unfold Expr.ofItems? at hes
    split at hes
    · cases hes
    · unfold Expr.headed at hes
      split at hes <;> cases hes
    · cases hes

/-- An item that is read as a variable is a name. -/
theorem exprs?_eq_var_cons {x : String} (h : exprs? items = some (.var x :: es)) :
    ∃ l rest, items = leaf l :: rest ∧ l.name? = some x ∧ exprs? rest = some es := by
  cases items with
  | nil => cases h
  | cons t ts =>
    by_cases ht : t = leaf .quote
    · subst ht
      cases ts with
      | nil => cases h; exact ⟨.quote, [], rfl, rfl, rfl⟩
      | cons u us =>
        obtain ⟨v, es', -, -, heq⟩ := exprs?_quote_cons_eq_some_iff.1 h
        cases heq
    · obtain ⟨e', es', he, hes, heq⟩ := (exprs?_cons_eq_some_iff ht).1 h
      cases heq
      cases t with
      | leaf l =>
        rcases Grammar.expr?_eq_some_iff.1 he with ⟨n, -, heq⟩ | ⟨y, hy, heq⟩
        · cases heq
        · cases heq; exact ⟨l, ts, rfl, hy, hes⟩
      | group items => exact absurd he expr?_group_ne_var

theorem eq_atom_of_name? {l : Lexeme} {x : String} (h : l.name? = some x) (hx : x ≠ "'") :
    l = .atom x := by
  cases l with
  | quote => cases h; exact absurd rfl hx
  | atom text =>
    simp only [Lexeme.name?, Option.ite_none_right_eq_some, Option.some.injEq] at h
    rw [h.2]
  | _ => cases h

theorem headed_cases {x : String} {args : List Expr} (h : exprs? items = some (.var x :: args)) :
    SpecialItems items (.headed x args) ∨ Expr.headed x args = .call (.var x) args := by
  obtain ⟨l, rest, rfl, hl, hrest⟩ := exprs?_eq_var_cons h
  unfold Expr.headed
  split
  · rw [eq_atom_of_name? hl (by decide)]
    exact .inl (.branch hrest)
  · rw [eq_atom_of_name? hl (by decide)]
    exact .inl (.loop hrest)
  · rw [eq_atom_of_name? hl (by decide)]
    obtain ⟨l', rest', rfl, hl', hrest'⟩ := exprs?_eq_var_cons hrest
    exact .inl (.assign hl' hrest')
  · rw [eq_atom_of_name? hl (by decide)]
    exact .inl (.sequence hrest)
  · exact .inr rfl

theorem expr?_group_cases (h : (group items).expr? = some e) :
    LambdaItems items e ∨ SpecialItems items e ∨
      ∃ f args, exprs? items = some (f :: args) ∧ e = .call f args := by
  rw [expr?] at h
  split at h
  · next e' hbinder =>
    cases h
    rcases binder?_eq_some hbinder with h | h
    · exact .inl h
    · exact .inr (.inl h)
  · obtain ⟨es, hes, he⟩ := Option.bind_eq_some_iff.1 h
    unfold Expr.ofItems? at he
    split at he
    · cases he
    · cases he
      rcases headed_cases hes with h | h
      · exact .inr (.inl h)
      · exact .inr (.inr ⟨_, _, hes, h⟩)
    · cases he
      exact .inr (.inr ⟨_, _, hes, rfl⟩)

theorem expr?_group_isSome {f : Expr} {args : List Expr} (h : exprs? items = some (f :: args)) :
    ∃ e, (group items).expr? = some e := by
  rw [expr?]
  split
  · next e _ => exact ⟨e, rfl⟩
  · rw [h]
    cases f <;> exact ⟨_, rfl⟩

/-- A group is a `lambda` or a special form, or else a call. -/
theorem expr?_group_eq_some_iff :
    (group items).expr? = some e ↔
      LambdaItems items e ∨ SpecialItems items e ∨
        (∀ e', ¬ LambdaItems items e') ∧ (∀ e', ¬ SpecialItems items e') ∧
          ∃ f args, exprs? items = some (f :: args) ∧ e = .call f args := by
  constructor
  · intro h
    rcases expr?_group_cases h with hl | hs | ⟨f, args, hes, rfl⟩
    · exact .inl hl
    · exact .inr (.inl hs)
    · refine .inr (.inr ⟨fun e' hl => ?_, fun e' hs => ?_, f, args, hes, rfl⟩)
      · rw [expr?_of_lambdaItems hl] at h
        cases h
        cases hl
      · rw [expr?_of_specialItems hs] at h
        cases h
        cases hs
  · rintro (hl | hs | ⟨hnl, hns, f, args, hes, rfl⟩)
    · exact expr?_of_lambdaItems hl
    · exact expr?_of_specialItems hs
    · -- The group is read as something, and nothing but the call is left.
      obtain ⟨e, he⟩ := expr?_group_isSome hes
      rcases expr?_group_cases he with hl | hs | ⟨f', args', hes', rfl⟩
      · exact absurd hl (hnl e)
      · exact absurd hs (hns e)
      · rw [hes] at hes'
        cases hes'
        exact he

end Tree

namespace Grammar

variable {l : Lexeme} {ls rest : List Lexeme} {e : Expr}

/-! ### The rules of groups, by the items of the group -/

theorem lambda_iff_items :
    Lambda Taken (.leftParen :: ls) e rest ↔
      ∃ items, Tree.Encloses ls items rest ∧ Tree.LambdaItems items e := by
  constructor
  · rintro ⟨hformals, hbody⟩
    obtain ⟨formals, ⟨hbal, rfl⟩, hnames⟩ := many_name_iff.1 hformals
    obtain ⟨body, hbody, he⟩ := many_taken_iff.1 (many_singleton_iff.2 hbody)
    have hgroup := hbody.cons (t := .group formals) hbal
    have hitems := hgroup.cons (t := .leaf (.atom "lambda")) ⟨nofun, nofun⟩
    exact ⟨_, by simpa [Tree.lexemes] using hitems, .mk hnames he⟩
  · rintro ⟨_, ⟨hbal, rfl⟩, @⟨formals, body, names, e, hnames, he⟩⟩
    have hbody : Many Taken (Tree.allLexemes body ++ .rightParen :: rest) [e]
        (.rightParen :: rest) := many_taken_iff.2 ⟨body, ⟨hbal.2.2, rfl⟩, he⟩
    have hlambda := Lambda.mk (many_name_iff.2 ⟨formals, ⟨hbal.2.1, rfl⟩, hnames⟩)
      (many_singleton_iff.1 hbody)
    simpa [Tree.allLexemes, Tree.lexemes] using hlambda

theorem special_iff_items :
    Special Taken (.leftParen :: ls) e rest ↔
      ∃ items, Tree.Encloses ls items rest ∧ Tree.SpecialItems items e := by
  -- The keyword in front of the arguments is one more item.
  have keyword : ∀ (word : String) {ls : List Lexeme} {args : List Tree},
      Tree.Encloses ls args rest →
        Tree.Encloses (.atom word :: ls) (.leaf (.atom word) :: args) rest :=
    fun word _ _ h => h.cons (t := .leaf (.atom word)) ⟨nofun, nofun⟩
  constructor
  · rintro (h | h | @⟨ls, _, _, _, _, hname, hvalue⟩ | h)
    · obtain ⟨args, hargs, hes⟩ := many_taken_iff.1 h
      exact ⟨_, keyword "if" hargs, .branch hes⟩
    · obtain ⟨args, hargs, hes⟩ := many_taken_iff.1 h
      exact ⟨_, keyword "while" hargs, .loop hes⟩
    · obtain ⟨args, hargs, hes⟩ := many_taken_iff.1 (many_singleton_iff.2 hvalue)
      cases ls with
      | nil => exact absurd hname name_ne_nil
      | cons l ls =>
        obtain ⟨hl, rfl⟩ := name_cons_iff.1 hname
        exact ⟨_, keyword "set" (hargs.cons (balanced_of_name? hl)), .assign hl hes⟩
    · obtain ⟨args, hargs, hes⟩ := many_taken_iff.1 h
      exact ⟨_, keyword "begin" hargs, .sequence hes⟩
  · rintro ⟨_, ⟨hbal, rfl⟩, hes | hes | ⟨hl, hes⟩ | hes⟩
    · exact .branch (many_taken_iff.2 ⟨_, ⟨hbal.2, rfl⟩, hes⟩)
    · exact .loop (many_taken_iff.2 ⟨_, ⟨hbal.2, rfl⟩, hes⟩)
    · refine .assign (name_cons_iff.2 ⟨hl, rfl⟩) (many_singleton_iff.1 ?_)
      exact many_taken_iff.2 ⟨_, ⟨hbal.2.2, rfl⟩, hes⟩
    · exact .sequence (many_taken_iff.2 ⟨_, ⟨hbal.2, rfl⟩, hes⟩)

/-- A rule that applies to a group is that of a `lambda`, of a special form or of a call. -/
theorem rule_group_iff {E : Reading Expr} :
    Rule E (.leftParen :: ls) e rest ↔
      Lambda E (.leftParen :: ls) e rest ∨ Special E (.leftParen :: ls) e rest ∨
        (∀ e' rest', ¬ Lambda E (.leftParen :: ls) e' rest') ∧
          (∀ e' rest', ¬ Special E (.leftParen :: ls) e' rest') ∧
            ∃ f args, Many E ls (f :: args) (.rightParen :: rest) ∧ e = .call f args := by
  constructor
  · rintro ((h | _ | h) | h | h | ⟨hnl, hns, h⟩)
    · cases h
    · exact .inl h
    · cases h
    · exact .inr (.inl h)
    · exact .inr (.inr ⟨hnl, hns, _, _, h, rfl⟩)
  · rintro (h | h | ⟨hnl, hns, f, args, h, rfl⟩)
    · exact .plain (.lambda h)
    · exact .special h
    · exact .call hnl hns h

/-- A rule that applies to a single lexeme is that of a number, a constant or a name. -/
theorem rule_leaf_iff {E : Reading Expr} (hl : l ≠ .leftParen) :
    Rule E (l :: ls) e rest ↔
      (∃ n, l.number? = some n ∧ ls = rest ∧ e = .literal (.number n)) ∨
        (l = .quote ∧ ∃ v, Constant ls v rest ∧ e = .literal v) ∨
          ∃ x, l.name? = some x ∧ ls = rest ∧ e = .var x ∧
            (l = .quote → ∀ v rest', ¬ Constant ls v rest') := by
  constructor
  · rintro ((h | h | h) | ⟨h, hquote⟩ | h | h)
    · obtain ⟨hn, rfl⟩ := number_cons_iff.1 h
      exact .inl ⟨_, hn, rfl, rfl⟩
    · exact .inr (.inl ⟨rfl, _, h, rfl⟩)
    · cases h
      exact absurd rfl hl
    · obtain ⟨hx, rfl⟩ := name_cons_iff.1 h
      exact .inr (.inr ⟨_, hx, rfl, rfl, fun heq => hquote ls (by rw [heq])⟩)
    · cases h <;> exact absurd rfl hl
    · exact absurd rfl hl
  · rintro (⟨n, hn, rfl, rfl⟩ | ⟨rfl, v, hv, rfl⟩ | ⟨x, hx, rfl, rfl, hquote⟩)
    · exact .plain (.number (number_cons_iff.2 ⟨hn, rfl⟩))
    · exact .plain (.quoted hv)
    · refine .name (name_cons_iff.2 ⟨hx, rfl⟩) fun ls' heq => ?_
      cases heq
      exact hquote rfl

/-! ### The expressions taken fit the rules -/

theorem taken_iff_rule_of_group :
    Taken (.leftParen :: ls) e rest ↔ Rule Taken (.leftParen :: ls) e rest := by
  rw [taken_group_iff, rule_group_iff]
  simp only [lambda_iff_items, special_iff_items, many_taken_iff, Tree.expr?_group_eq_some_iff]
  constructor
  · rintro ⟨items, hitems, hl | hs | ⟨hnl, hns, f, args, hes, rfl⟩⟩
    · exact .inl ⟨items, hitems, hl⟩
    · exact .inr (.inl ⟨items, hitems, hs⟩)
    · -- A parenthesis encloses the same items in every reading.
      refine .inr (.inr ⟨?_, ?_, f, args, ⟨items, hitems, hes⟩, rfl⟩)
      · rintro e' rest' ⟨items', hitems', hl⟩
        obtain ⟨rfl, rfl⟩ := hitems.unique hitems'
        exact hnl e' hl
      · rintro e' rest' ⟨items', hitems', hs⟩
        obtain ⟨rfl, rfl⟩ := hitems.unique hitems'
        exact hns e' hs
  · rintro (⟨items, hitems, hl⟩ | ⟨items, hitems, hs⟩ |
      ⟨hnl, hns, f, args, ⟨items, hitems, hes⟩, rfl⟩)
    · exact ⟨items, hitems, .inl hl⟩
    · exact ⟨items, hitems, .inr (.inl hs)⟩
    · refine ⟨items, hitems, .inr (.inr ⟨fun e' hl => ?_, fun e' hs => ?_, f, args, hes, rfl⟩)⟩
      · exact hnl e' rest ⟨items, hitems, hl⟩
      · exact hns e' rest ⟨items, hitems, hs⟩

theorem taken_iff_rule_of_leaf (hl : l ≠ .leftParen) :
    Taken (l :: ls) e rest ↔ Rule Taken (l :: ls) e rest := by
  rw [rule_leaf_iff hl]
  -- The quote mark is the one lexeme here that may take others with it.
  by_cases hquote : l = .quote
  · subst hquote
    rw [taken_quote_iff]
    constructor
    · rintro (⟨v, hv, rfl⟩ | ⟨hnone, rfl, rfl⟩)
      · exact .inr (.inl ⟨rfl, v, hv, rfl⟩)
      · exact .inr (.inr ⟨"'", rfl, rfl, rfl, fun _ => hnone⟩)
    · rintro (⟨n, hn, -⟩ | ⟨-, v, hv, rfl⟩ | ⟨x, hx, rfl, rfl, hnone⟩)
      · cases hn
      · exact .inl ⟨v, hv, rfl⟩
      · cases hx
        exact .inr ⟨hnone rfl, rfl, rfl⟩
  · rw [taken_iff_of_ne_quote (by simpa using hquote)]
    constructor
    · rintro ⟨t, hbal, heq, he⟩
      cases t with
      | group items => cases heq; exact absurd rfl hl
      | leaf l' =>
        cases heq
        rcases expr?_eq_some_iff.1 he with ⟨n, hn, rfl⟩ | ⟨x, hx, rfl⟩
        · exact .inl ⟨n, hn, rfl, rfl⟩
        · exact .inr (.inr ⟨x, hx, rfl, rfl, fun h => absurd h hquote⟩)
    · rintro (⟨n, hn, rfl, rfl⟩ | ⟨h, -⟩ | ⟨x, hx, rfl, rfl, -⟩)
      · exact ⟨.leaf l, balanced_of_number? hn, rfl, expr?_eq_some_iff.2 (.inl ⟨n, hn, rfl⟩)⟩
      · exact absurd h hquote
      · exact ⟨.leaf l, balanced_of_name? hx, rfl, expr?_eq_some_iff.2 (.inr ⟨x, hx, rfl⟩)⟩

/-- The expressions taken fit the rules. -/
theorem taken_iff_rule (ls : List Lexeme) (e : Expr) (rest : List Lexeme) :
    Taken ls e rest ↔ Rule Taken ls e rest := by
  cases ls with
  | nil =>
    constructor
    · intro h; cases h
    · rintro ((h | _ | h) | h | h | _) <;> cases h
  | cons l ls =>
    by_cases hl : l = .leftParen
    · subst hl
      exact taken_iff_rule_of_group
    · exact taken_iff_rule_of_leaf hl

end Grammar

/-! ### Readings of the front of a text -/

section
variable {ls rest : List Lexeme} {e : Expr}

/-- The expressions taken are those that the grammar derives. -/
theorem takeExpr?_eq_some_iff : takeExpr? ls = some (e, rest) ↔ Grammar.Expression ls e rest :=
  Grammar.eq_expression_of_iff_rule Grammar.taken_iff_rule ls e rest

/-- The plain expressions taken are those that the grammar derives. -/
theorem takeValueExpr?_eq_some_iff :
    takeValueExpr? ls = some (e, rest) ↔ Grammar.PlainExpression ls e rest := by
  rw [takeValueExpr?, Option.filter_eq_some_iff, takeExpr?_eq_some_iff,
    Grammar.expression_iff_rule]
  constructor
  · rintro ⟨h | _ | h | _, hvalue⟩
    · exact h
    · cases hvalue
    · cases h <;> cases hvalue
    · cases hvalue
  · intro h
    refine ⟨.plain h, ?_⟩
    rcases h with _ | _ | h
    · rfl
    · rfl
    · cases h; rfl

/-- A form is read as an expression if the grammar derives that expression from all of it. -/
theorem parse_eq_ok_iff : parse ls = .ok e ↔ Grammar.Expression ls e [] := by
  rw [← takeExpr?_eq_some_iff, parse]
  split
  · next h => simp [h]
  · next h => simp [h]
  · next h => simp [h]

theorem Grammar.Constant.suffix {v : Value} (h : Constant ls v rest) : rest <:+ ls := by
  obtain ⟨t, -, rfl, -⟩ := h.exists_tree
  exact List.suffix_append _ _

theorem Grammar.Expression.suffix (h : Expression ls e rest) : rest <:+ ls := by
  have htaken : Taken ls e rest := takeExpr?_eq_some_iff.2 h
  by_cases hquote : ∃ ls', ls = .quote :: ls'
  · obtain ⟨ls', rfl⟩ := hquote
    rcases taken_quote_iff.1 htaken with ⟨v, hv, -⟩ | ⟨-, -, rfl⟩
    · exact hv.suffix.trans (List.suffix_cons _ _)
    · exact List.suffix_cons _ _
  · obtain ⟨t, -, rfl, -⟩ := (taken_iff_of_ne_quote fun ls' heq => hquote ⟨ls', heq⟩).1 htaken
    exact List.suffix_append _ _

theorem Grammar.PlainExpression.expression (h : PlainExpression ls e rest) :
    Expression ls e rest :=
  expression_iff_rule.2 (.plain h)

end

/-! ### Readings at a place of a text -/

/-- What is taken from a text at place `i`, and the place after it. -/
def readAt {α : Type} (take? : List Lexeme → Option (α × List Lexeme)) (ts : List Token)
    (i : Nat) : Option (α × Nat) :=
  (take? ((ts.map Token.lexeme).drop i)).map fun (x, rest) => (x, ts.length - rest.length)

/-- The expression at a place, and the place after it. -/
def expressionAt (ts : List Token) (i : Nat) : Option (Expr × Nat) := readAt takeExpr? ts i

/-- The number, quoted constant or `lambda` at a place, and the place after it. -/
def valueAt (ts : List Token) (i : Nat) : Option (Expr × Nat) := readAt takeValueExpr? ts i

/-- The constant at a place, and the place after it. -/
def constantAt (ts : List Token) (i : Nat) : Option (Value × Nat) := readAt takeConstant? ts i

namespace Grammar

/-- What a relation reads from the tokens from place `i` up to place `j`. What comes after may
decide whether it is read. -/
def At {α : Type} (R : Reading α) (ts : List Token) (i : Nat) (x : α) (j : Nat) : Prop :=
  i ≤ j ∧ j ≤ ts.length ∧
    R ((ts.map Token.lexeme).drop i) x ((ts.map Token.lexeme).drop j)

variable {α : Type} {R : Reading α} {take? : List Lexeme → Option (α × List Lexeme)}
  {ts : List Token} {i j j' : Nat} {x x' : α}

theorem readAt_eq_some_iff (htake : ∀ ls x rest, take? ls = some (x, rest) ↔ R ls x rest)
    (hsuffix : ∀ ls x rest, R ls x rest → rest <:+ ls ∧ rest.length < ls.length) :
    readAt take? ts i = some (x, j) ↔ At R ts i x j := by
  unfold readAt At
  constructor
  · intro h
    obtain ⟨⟨y, rest⟩, hy, heq⟩ := Option.map_eq_some_iff.1 h
    cases heq
    have hR := (htake _ _ _).1 hy
    obtain ⟨hsuf, hlt⟩ := hsuffix _ _ _ hR
    have hrest : rest = (ts.map Token.lexeme).drop (ts.length - rest.length) := by
      have := List.suffix_iff_eq_drop.1 (hsuf.trans (List.drop_suffix _ _))
      rwa [List.length_map] at this
    simp only [List.length_drop, List.length_map] at hlt
    exact ⟨by omega, by omega, hrest ▸ hR⟩
  · rintro ⟨hij, hj, hR⟩
    rw [(htake _ _ _).2 hR]
    simp only [Option.map_some, List.length_drop, List.length_map, Option.some.injEq,
      Prod.mk.injEq, true_and]
    omega

theorem expressionAt_eq_some_iff {e : Expr} :
    expressionAt ts i = some (e, j) ↔ At Expression ts i e j :=
  readAt_eq_some_iff (fun _ _ _ => takeExpr?_eq_some_iff) fun _ _ _ h => ⟨h.suffix, h.length_lt⟩

theorem valueAt_eq_some_iff {e : Expr} :
    valueAt ts i = some (e, j) ↔ At PlainExpression ts i e j :=
  readAt_eq_some_iff (fun _ _ _ => takeValueExpr?_eq_some_iff) fun _ _ _ h =>
    ⟨h.expression.suffix, h.expression.length_lt⟩

theorem constantAt_eq_some_iff {v : Value} :
    constantAt ts i = some (v, j) ↔ At Constant ts i v j :=
  readAt_eq_some_iff (fun _ _ _ => takeConstant?_eq_some_iff) fun _ _ _ h =>
    ⟨h.suffix, h.length_lt⟩

/-- Where a function decides a relation, there is one reading at each place. -/
theorem At.unique (hread : ∀ x j, readAt take? ts i = some (x, j) ↔ At R ts i x j)
    (h : At R ts i x j) (h' : At R ts i x' j') : x = x' ∧ j = j' := by
  have heq := (hread x j).2 h
  rw [(hread x' j').2 h'] at heq
  cases heq
  exact ⟨rfl, rfl⟩

end Grammar

open Grammar in
/-- At every place of every text, what is read is what the grammar derives there. There is at most
one reading, and a form is read as an expression if that is derived from all of its tokens. -/
theorem reads_iff_derives (ts : List Token) (i : Nat) :
    (∀ e j, expressionAt ts i = some (e, j) ↔ At Expression ts i e j) ∧
    (∀ e j, valueAt ts i = some (e, j) ↔ At PlainExpression ts i e j) ∧
    (∀ v j, constantAt ts i = some (v, j) ↔ At Constant ts i v j) ∧
    (∀ e e' j j', At Expression ts i e j → At Expression ts i e' j' → e = e' ∧ j = j') ∧
    (∀ e e' j j', At PlainExpression ts i e j → At PlainExpression ts i e' j' →
      e = e' ∧ j = j') ∧
    (∀ v v' j j', At Constant ts i v j → At Constant ts i v' j' → v = v' ∧ j = j') ∧
    (∀ e, parse (ts.map Token.lexeme) = .ok e ↔ At Expression ts 0 e ts.length) ∧
    (∀ ls e rest, Expression ls e rest ↔ Rule Expression ls e rest) := by
  refine ⟨fun e j => expressionAt_eq_some_iff, fun e j => valueAt_eq_some_iff,
    fun v j => constantAt_eq_some_iff, ?_, ?_, ?_, ?_, fun ls e rest => expression_iff_rule⟩
  · exact fun e e' j j' => At.unique fun e j => expressionAt_eq_some_iff
  · exact fun e e' j j' => At.unique fun e j => valueAt_eq_some_iff
  · exact fun v v' j j' => At.unique fun v j => constantAt_eq_some_iff
  · intro e
    have hdrop : (ts.map Token.lexeme).drop ts.length = [] := by simp
    rw [parse_eq_ok_iff, At, hdrop, List.drop_zero]
    simp

end PocketLisp
