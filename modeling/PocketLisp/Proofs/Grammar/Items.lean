import PocketLisp.Proofs.Grammar.Acceptance

/-!
# The items of a group

An expression is read from one piece, or from two if the first is a quote mark. This holds of a
whole form as it does inside a group.

## Main definitions

- `Tree.Item` — the pieces that one expression is read from

## Main statements

- `Tree.exprs?_eq_cons_iff` — expressions are read from one item after another
- `parse_eq_ok_iff_item` — a form is read from a single item
- `Tree.lambdaItems_of_expr?`, `Tree.specialItems_of_expr?`, `Tree.exprs?_of_expr?_call` — what a
  group is read as tells what its items are
-/

namespace PocketLisp

namespace Tree

variable {t : Tree} {ts items item : List Tree} {e f : Expr} {es args : List Expr} {v : Value}
  {x : String}

/-- The pieces that one expression is read from. -/
inductive Item : List Tree → Expr → Prop
  | piece {t : Tree} {e : Expr} : t ≠ leaf .quote → t.expr? = some e → Item [t] e
  | quoted {t : Tree} {v : Value} : t.constant? = some v → Item [leaf .quote, t] (.literal v)
  | quote : Item [leaf .quote] (.var "'")

theorem exprs?_eq_nil (h : exprs? ts = some []) : ts = [] := by
  cases ts with
  | nil => rfl
  | cons t ts =>
    exfalso
    by_cases ht : t = leaf .quote
    · subst ht
      cases ts with
      | nil => cases h
      | cons u us =>
        obtain ⟨v, es, -, -, heq⟩ := exprs?_quote_cons_eq_some_iff.1 h
        cases heq
    · obtain ⟨e, es, -, -, heq⟩ := (exprs?_cons_eq_some_iff ht).1 h
      cases heq

theorem exprs?_tail (h : exprs? (t :: ts) = some (e :: es)) (ht : t ≠ leaf .quote) :
    exprs? ts = some es := by
  obtain ⟨e', es', -, hes, heq⟩ := (exprs?_cons_eq_some_iff ht).1 h
  cases heq
  exact hes

/-- Expressions are read from one item after another, a quote mark that is a variable being the
last. -/
theorem exprs?_eq_cons_iff :
    exprs? ts = some (e :: es) ↔
      ∃ item rest, ts = item ++ rest ∧ Item item e ∧ exprs? rest = some es ∧
        (item = [leaf .quote] → rest = []) := by
  constructor
  · intro h
    cases ts with
    | nil => cases h
    | cons t ts =>
      by_cases ht : t = leaf .quote
      · subst ht
        cases ts with
        | nil =>
          cases h
          exact ⟨[leaf .quote], [], rfl, .quote, rfl, fun _ => rfl⟩
        | cons u us =>
          obtain ⟨v, es', hv, hes, heq⟩ := exprs?_quote_cons_eq_some_iff.1 h
          cases heq
          exact ⟨[leaf .quote, u], us, rfl, .quoted hv, hes, nofun⟩
      · obtain ⟨e', es', he, hes, heq⟩ := (exprs?_cons_eq_some_iff ht).1 h
        cases heq
        refine ⟨[t], ts, rfl, .piece ht he, hes, fun hquote => ?_⟩
        cases hquote
        exact absurd rfl ht
  · rintro ⟨item, rest, rfl, hitem, hes, hlast⟩
    cases hitem with
    | piece ht he => exact (exprs?_cons_eq_some_iff ht).2 ⟨_, _, he, hes, rfl⟩
    | quoted hv => exact exprs?_quote_cons_eq_some_iff.2 ⟨_, _, hv, hes, rfl⟩
    | quote =>
      cases hlast rfl
      cases hes
      rfl

/-- A single expression is read from a single item. -/
theorem item_of_exprs? (h : exprs? ts = some [e]) : Item ts e := by
  obtain ⟨item, rest, rfl, hitem, hrest, -⟩ := exprs?_eq_cons_iff.1 h
  rw [exprs?_eq_nil hrest, List.append_nil]
  exact hitem

theorem exprs?_of_item (h : Item ts e) : exprs? ts = some [e] :=
  exprs?_eq_cons_iff.2 ⟨ts, [], (List.append_nil ts).symm, h, rfl, fun _ => rfl⟩

/-! ### What an item is -/

theorem Item.var (h : Item item (.var x)) : ∃ l, item = [leaf l] ∧ l.name? = some x := by
  cases h with
  | quote => exact ⟨.quote, rfl, rfl⟩
  | @piece t _ _ he =>
    cases t with
    | group items => exact absurd he expr?_group_ne_var
    | leaf l =>
      rcases Grammar.expr?_eq_some_iff.1 he with ⟨n, -, heq⟩ | ⟨y, hy, heq⟩
      · cases heq
      · cases heq
        exact ⟨l, rfl, hy⟩

theorem Item.literal (h : Item item (.literal v)) :
    (∃ l n, item = [leaf l] ∧ l.number? = some n ∧ v = .number n) ∨
      ∃ t, item = [leaf .quote, t] ∧ t.constant? = some v := by
  cases h with
  | quoted hv => exact .inr ⟨_, rfl, hv⟩
  | @piece t _ _ he =>
    left
    cases t with
    | leaf l =>
      rcases Grammar.expr?_eq_some_iff.1 he with ⟨n, hn, heq⟩ | ⟨y, -, heq⟩
      · cases heq
        exact ⟨l, n, rfl, hn, rfl⟩
      · cases heq
    | group items =>
      rcases expr?_group_cases he with h | h | ⟨f, args, -, heq⟩
      · cases h
      · cases h
      · cases heq

/-- What is neither a constant nor a variable is read from a group. -/
theorem Item.group (h : Item item e) (hliteral : ∀ v, e ≠ .literal v) (hvar : ∀ x, e ≠ .var x) :
    ∃ items, item = [Tree.group items] ∧ (Tree.group items).expr? = some e := by
  cases h with
  | quote => exact absurd rfl (hvar _)
  | quoted => exact absurd rfl (hliteral _)
  | @piece t _ _ he =>
    cases t with
    | group items => exact ⟨items, rfl, he⟩
    | leaf l =>
      rcases Grammar.expr?_eq_some_iff.1 he with ⟨n, -, heq⟩ | ⟨y, -, heq⟩
      · exact absurd heq (hliteral _)
      · exact absurd heq (hvar _)

/-! ### Names -/

theorem mapM_name?_cons_eq_some_iff {xs : List String} :
    (t :: ts).mapM name? = some xs ↔
      ∃ l x xs', t = leaf l ∧ l.name? = some x ∧ ts.mapM name? = some xs' ∧ xs = x :: xs' := by
  simp only [List.mapM_cons, Option.bind_eq_bind, Option.bind_eq_some_iff, Option.pure_def,
    Option.some.injEq]
  constructor
  · rintro ⟨x, hx, xs', hxs, rfl⟩
    cases t with
    | group items => cases hx
    | leaf l => exact ⟨l, x, xs', rfl, hx, hxs, rfl⟩
  · rintro ⟨l, x, xs', rfl, hx, hxs, rfl⟩
    exact ⟨x, hx, xs', hxs, rfl⟩

/-- What is read as variables alone are names. -/
theorem mapM_name?_of_exprs? {xs : List String} (h : exprs? ts = some (xs.map .var)) :
    ts.mapM name? = some xs := by
  induction xs generalizing ts with
  | nil =>
    rw [exprs?_eq_nil h]
    rfl
  | cons x xs ih =>
    obtain ⟨l, rest, rfl, hx, hrest⟩ := exprs?_eq_var_cons h
    exact mapM_name?_cons_eq_some_iff.2 ⟨l, x, xs, rfl, hx, ih hrest, rfl⟩

/-! ### What a group is read as -/

theorem lambdaItems_of_expr? {formals : List String} {body : Expr}
    (h : (Tree.group items).expr? = some (.lambda formals body)) :
    LambdaItems items (.lambda formals body) := by
  rcases expr?_group_cases h with h | h | ⟨f, args, -, heq⟩
  · exact h
  · cases h
  · cases heq

theorem specialItems_of_expr? {keyword : Keyword}
    (h : (Tree.group items).expr? = some (.special keyword args)) :
    SpecialItems items (.special keyword args) := by
  rcases expr?_group_cases h with h | h | ⟨f, args, -, heq⟩
  · cases h
  · exact h
  · cases heq

theorem exprs?_of_expr?_call (h : (Tree.group items).expr? = some (.call f args)) :
    exprs? items = some (f :: args) := by
  rcases expr?_group_cases h with h | h | ⟨f, args, hes, heq⟩
  · cases h
  · cases h
  · cases heq
    exact hes

/-- What is read as a call of a variable is no special form of that name. -/
theorem headed_of_expr?_call (h : (Tree.group items).expr? = some (.call (.var x) args)) :
    Expr.headed x args = .call (.var x) args := by
  rcases headed_cases (exprs?_of_expr?_call h) with hspecial | hcall
  · rw [expr?_of_specialItems hspecial] at h
    exact Option.some.inj h
  · exact hcall

end Tree

/-! ### Whole forms -/

/-- A form is read from a single item. -/
theorem parse_eq_ok_iff_item {ls : List Lexeme} {e : Expr} :
    parse ls = .ok e ↔
      ∃ item, Tree.AllBalanced item ∧ ls = Tree.allLexemes item ∧ Tree.Item item e := by
  have htaken : parse ls = .ok e ↔ Grammar.Taken ls e [] :=
    parse_eq_ok_iff.trans takeExpr?_eq_some_iff.symm
  rw [htaken]
  constructor
  · intro h
    by_cases hquote : ∃ ls', ls = .quote :: ls'
    · obtain ⟨ls', rfl⟩ := hquote
      rcases Grammar.taken_quote_iff.1 h with ⟨v, hv, rfl⟩ | ⟨-, rfl, rfl⟩
      · obtain ⟨t, hbal, rfl, ht⟩ := hv.exists_tree
        exact ⟨[.leaf .quote, t], ⟨⟨nofun, nofun⟩, hbal, trivial⟩, rfl, .quoted ht⟩
      · exact ⟨[.leaf .quote], ⟨⟨nofun, nofun⟩, trivial⟩, rfl, .quote⟩
    · obtain ⟨t, hbal, rfl, he⟩ :=
        (Grammar.taken_iff_of_ne_quote fun ls' heq => hquote ⟨ls', heq⟩).1 h
      have hne : t ≠ .leaf .quote := by
        rintro rfl
        exact hquote ⟨[], rfl⟩
      exact ⟨[t], ⟨hbal, trivial⟩, rfl, .piece hne he⟩
  · rintro ⟨item, hbal, rfl, hitem⟩
    cases hitem with
    | @piece t _ ht he =>
      exact (Grammar.taken_iff_of_ne_quote (Tree.lexemes_append_ne_quote ht [])).2
        ⟨t, hbal.1, rfl, he⟩
    | @quoted t v hv =>
      have hconstant := Grammar.constant_of_constant? [] t v hv
      exact Grammar.taken_quote_iff.2 (.inl ⟨v, hconstant, rfl⟩)
    | quote => rfl

end PocketLisp
