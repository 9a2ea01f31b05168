import PocketLisp.Proofs.Grammar.Trees

/-!
# Balanced pieces and the grammar of expressions

## Main statements

- `Tree.constants?_isSome_of_exprs?` — what has a meaning as code has one as a constant
- `many_taken_iff` — the expressions of several pieces are those taken one after another
-/

namespace PocketLisp

namespace Tree

variable {t : Tree} {ts : List Tree} {es : List Expr}

/-! ### The items of a group, one at a time -/

theorem exprs?_quote_cons_eq_some_iff :
    exprs? (leaf .quote :: t :: ts) = some es ↔
      ∃ v es', t.constant? = some v ∧ exprs? ts = some es' ∧ es = .literal v :: es' := by
  rw [exprs?]
  cases t.constant? <;> simp [Option.map_eq_some_iff, @eq_comm _ es]

theorem exprs?_cons_eq_some_iff (ht : t ≠ leaf .quote) :
    exprs? (t :: ts) = some es ↔
      ∃ e es', t.expr? = some e ∧ exprs? ts = some es' ∧ es = e :: es' := by
  rw [exprs?.eq_4 t ts (fun h _ => ht h) (fun _ _ h _ => ht h)]
  cases t.expr? <;> simp [Option.map_eq_some_iff, @eq_comm _ es]

theorem constants?_isSome_cons :
    (constants? (t :: ts)).isSome ↔ t.constant?.isSome ∧ (constants? ts).isSome := by
  rw [constants?]
  cases t.constant? <;> simp

theorem lexemes_append_ne_quote (ht : t ≠ leaf .quote) (ls ls' : List Lexeme) :
    t.lexemes ++ ls ≠ .quote :: ls' := by
  intro h
  cases t with
  | leaf l =>
    cases h
    exact ht rfl
  | group items => cases h

/-! ### Code is data -/

theorem constants?_isSome_of_mapM_name? {names : List String} (h : ts.mapM name? = some names) :
    (constants? ts).isSome := by
  induction ts generalizing names with
  | nil => rfl
  | cons t ts ih =>
    simp only [List.mapM_cons, Option.bind_eq_bind, Option.bind_eq_some_iff] at h
    obtain ⟨x, hx, xs, hxs, -⟩ := h
    refine constants?_isSome_cons.2 ⟨?_, ih hxs⟩
    cases t with
    | leaf l => simp [constant?, Grammar.constant?_eq_some_iff.2 (.inr ⟨x, hx, rfl⟩)]
    | group items => cases hx

mutual

theorem constant?_isSome_of_expr? : ∀ (t : Tree) (e : Expr), t.expr? = some e → t.constant?.isSome
  | leaf l, e, h => by
    rcases Grammar.expr?_eq_some_iff.1 h with ⟨n, hn, -⟩ | ⟨x, hx, -⟩
    · simp [constant?, Grammar.constant?_eq_some_iff.2 (.inl ⟨n, hn, rfl⟩)]
    · simp [constant?, Grammar.constant?_eq_some_iff.2 (.inr ⟨x, hx, rfl⟩)]
  | group items, e, h => by
    rw [expr?] at h
    rw [constant?, Option.isSome_map]
    split at h
    · next e' hbinder => exact constants?_isSome_of_binder? items e' hbinder
    · obtain ⟨es, hes, -⟩ := Option.bind_eq_some_iff.1 h
      exact constants?_isSome_of_exprs? items es hes

theorem constants?_isSome_of_binder? :
    ∀ (ts : List Tree) (e : Expr), binder? ts = some e → (constants? ts).isSome
  | [], _, h => by cases h
  | [t], _, h => by unfold binder? at h; split at h <;> simp_all
  | t :: u :: ts, e, h => by
    unfold binder? at h
    split at h
    · next formals body heq =>
      obtain ⟨rfl, rfl, rfl⟩ := by simpa using heq
      split at h
      · -- The word `lambda` and the formals are constants too.
        next names e' hnames hbody =>
        refine constants?_isSome_cons.2 ⟨rfl, constants?_isSome_cons.2 ⟨?_, ?_⟩⟩
        · rw [constant?, Option.isSome_map]
          exact constants?_isSome_of_mapM_name? hnames
        · exact constants?_isSome_of_exprs? ts _ hbody
      · cases h
    · next rest heq =>
      obtain ⟨rfl, rfl, rfl⟩ := by simpa using heq
      split at h
      · next e' hrest =>
        refine constants?_isSome_cons.2 ⟨rfl, constants?_isSome_cons.2 ⟨rfl, ?_⟩⟩
        exact constants?_isSome_of_exprs? ts _ hrest
      · cases h
    · cases h

/-- What has a meaning as code has one as a constant. -/
theorem constants?_isSome_of_exprs? :
    ∀ (ts : List Tree) (es : List Expr), exprs? ts = some es → (constants? ts).isSome
  | [], _, _ => rfl
  | t :: ts, es, h => by
    by_cases ht : t = leaf .quote
    · subst ht
      cases ts with
      | nil => rfl
      | cons u us =>
        obtain ⟨v, es', hv, hes, -⟩ := exprs?_quote_cons_eq_some_iff.1 h
        refine constants?_isSome_cons.2 ⟨rfl, constants?_isSome_cons.2 ⟨?_, ?_⟩⟩
        · simp [hv]
        · exact constants?_isSome_of_exprs? us es' hes
    · obtain ⟨e, es', he, hes, -⟩ := (exprs?_cons_eq_some_iff ht).1 h
      exact constants?_isSome_cons.2
        ⟨constant?_isSome_of_expr? t e he, constants?_isSome_of_exprs? ts es' hes⟩

end

end Tree

namespace Grammar

/-- The expressions taken from the front of a text, as a relation. -/
def Taken : Reading Expr := fun ls e rest => takeExpr? ls = some (e, rest)

variable {l : Lexeme} {ls rest : List Lexeme} {e : Expr} {es : List Expr}

/-! ### The front of a text -/

theorem taken_quote_iff :
    Taken (.quote :: ls) e rest ↔
      (∃ v, Constant ls v rest ∧ e = .literal v) ∨
        (∀ v rest', ¬ Constant ls v rest') ∧ e = .var "'" ∧ ls = rest := by
  rw [Taken, takeExpr?]
  cases h : takeConstant? ls with
  | none =>
    have hnone : ∀ v rest', ¬ Constant ls v rest' := fun v rest' hc => by
      rw [takeConstant?_eq_some_iff.2 hc] at h
      cases h
    simp [hnone, @eq_comm _ e]
  | some vr =>
    obtain ⟨v, rest'⟩ := vr
    have hv := takeConstant?_eq_some_iff.1 h
    have hall : ∀ w rest'', Constant ls w rest'' ↔ v = w ∧ rest' = rest'' := fun w rest'' => by
      rw [← takeConstant?_eq_some_iff, h]
      simp
    simp only [hall, Option.some.injEq, Prod.mk.injEq]
    constructor
    · rintro ⟨rfl, rfl⟩
      exact .inl ⟨v, ⟨rfl, rfl⟩, rfl⟩
    · rintro (⟨w, ⟨rfl, rfl⟩, rfl⟩ | ⟨hnone, -⟩)
      · exact ⟨rfl, rfl⟩
      · exact absurd ⟨rfl, rfl⟩ (hnone v rest')

theorem taken_iff_of_ne_quote (h : ∀ ls', ls ≠ .quote :: ls') :
    Taken ls e rest ↔
      ∃ t : Tree, t.Balanced ∧ ls = t.lexemes ++ rest ∧ t.expr? = some e := by
  rw [Taken, takeExpr?.eq_2 ls h]
  constructor
  · intro he
    split at he
    · cases he
    · next t rest' htake =>
      obtain ⟨e', he', heq⟩ := Option.map_eq_some_iff.1 he
      cases heq
      obtain ⟨hbal, hls⟩ := Tree.take?_eq_some_iff.1 htake
      exact ⟨t, hbal, hls, he'⟩
  · rintro ⟨t, hbal, rfl, he⟩
    simp [Tree.take?_lexemes hbal, he]

theorem not_constant_rightParen {v : Value} : ¬ Constant (.rightParen :: ls) v rest := by
  intro h
  cases takeConstant?_eq_some_iff.2 h

theorem taken_group_iff :
    Taken (.leftParen :: ls) e rest ↔
      ∃ items, Tree.Encloses ls items rest ∧ (Tree.group items).expr? = some e := by
  rw [taken_iff_of_ne_quote (by simp)]
  constructor
  · rintro ⟨t, hbal, heq, he⟩
    obtain ⟨items, rfl, hitems⟩ := Tree.take?_group_iff.1 (Tree.take?_eq_some_iff.2 ⟨hbal, heq⟩)
    exact ⟨items, hitems, he⟩
  · rintro ⟨items, hitems, he⟩
    obtain ⟨hbal, heq⟩ := Tree.take?_eq_some_iff.1 (Tree.take?_group_iff.2 ⟨items, rfl, hitems⟩)
    exact ⟨.group items, hbal, heq, he⟩

/-! ### One item after another, up to a closing parenthesis -/

theorem many_name_iff {xs : List String} :
    Many Name ls xs (.rightParen :: rest) ↔
      ∃ ts, Tree.Encloses ls ts rest ∧ ts.mapM Tree.name? = some xs := by
  constructor
  · intro h
    generalize hend : Lexeme.rightParen :: rest = after at h
    induction h with
    | nil => subst hend; exact ⟨[], Tree.encloses_nil, rfl⟩
    | @cons ls' mid _ x xs' hx _ ih =>
      obtain ⟨ts, hts, hxs⟩ := ih hend
      cases ls' with
      | nil => exact absurd hx name_ne_nil
      | cons l ls' =>
        obtain ⟨hname, rfl⟩ := name_cons_iff.1 hx
        refine ⟨.leaf l :: ts, hts.cons (balanced_of_name? hname), ?_⟩
        simp [Tree.name?, hname, hxs]
  · rintro ⟨ts, ⟨hbal, rfl⟩, hxs⟩
    induction ts generalizing xs with
    | nil => cases hxs; exact .nil
    | cons t ts ih =>
      simp only [List.mapM_cons, Option.bind_eq_bind, Option.bind_eq_some_iff, Option.pure_def,
        Option.some.injEq] at hxs
      obtain ⟨x, hx, xs', hxs', rfl⟩ := hxs
      cases t with
      | leaf l => exact .cons (name_cons_iff.2 ⟨hx, rfl⟩) (ih hxs' hbal.2)
      | group items => cases hx

theorem exists_items_of_many_taken (h : Many Taken ls es (.rightParen :: rest)) :
    ∃ ts, Tree.Encloses ls ts rest ∧ Tree.exprs? ts = some es := by
  generalize hend : Lexeme.rightParen :: rest = after at h
  induction h with
  | nil => subst hend; exact ⟨[], Tree.encloses_nil, rfl⟩
  | @cons ls' mid _ e' es' he _ ih =>
    obtain ⟨ts, hts, hes⟩ := ih hend
    by_cases hquote : ∃ ls'', ls' = .quote :: ls''
    · obtain ⟨ls'', rfl⟩ := hquote
      rcases taken_quote_iff.1 he with ⟨v, hv, rfl⟩ | ⟨hnone, rfl, rfl⟩
      · obtain ⟨t, hbal, rfl, ht⟩ := hv.exists_tree
        refine ⟨.leaf .quote :: t :: ts, (hts.cons hbal).cons ⟨nofun, nofun⟩, ?_⟩
        exact Tree.exprs?_quote_cons_eq_some_iff.2 ⟨v, _, ht, hes, rfl⟩
      · -- A piece after the quote mark would be a constant, as all code is; so there is none.
        cases ts with
        | nil =>
          cases hes
          exact ⟨[.leaf .quote], hts.cons ⟨nofun, nofun⟩, rfl⟩
        | cons t ts =>
          have hcode := Tree.constants?_isSome_of_exprs? _ _ hes
          obtain ⟨v, ht⟩ := Option.isSome_iff_exists.1 (Tree.constants?_isSome_cons.1 hcode).1
          obtain ⟨-, rfl⟩ := hts
          refine absurd ?_ (hnone v (Tree.allLexemes ts ++ .rightParen :: rest))
          rw [Tree.allLexemes, List.append_assoc]
          exact constant_of_constant? _ t v ht
    · obtain ⟨t, hbal, rfl, ht⟩ :=
        (taken_iff_of_ne_quote fun ls'' heq => hquote ⟨ls'', heq⟩).1 he
      have hne : t ≠ .leaf .quote := by
        rintro rfl
        exact hquote ⟨mid, rfl⟩
      refine ⟨t :: ts, hts.cons hbal, ?_⟩
      exact (Tree.exprs?_cons_eq_some_iff hne).2 ⟨e', _, ht, hes, rfl⟩

theorem many_taken_of_exprs? :
    ∀ (ts : List Tree) (es : List Expr), Tree.AllBalanced ts → Tree.exprs? ts = some es →
      Many Taken (Tree.allLexemes ts ++ .rightParen :: rest) es (.rightParen :: rest)
  | [], _, _, h => by cases h; exact .nil
  | t :: ts, es, hbal, h => by
    by_cases ht : t = .leaf .quote
    · subst ht
      cases ts with
      | nil =>
        -- A quote mark at the end of a group has no constant after it.
        cases h
        exact .cons (taken_quote_iff.2 (.inr ⟨fun _ _ => not_constant_rightParen, rfl, rfl⟩)) .nil
      | cons u us =>
        obtain ⟨v, es', hv, hes, rfl⟩ := Tree.exprs?_quote_cons_eq_some_iff.1 h
        have hrest := many_taken_of_exprs? us es' hbal.2.2 hes
        refine .cons (taken_quote_iff.2 (.inl ⟨v, ?_, rfl⟩)) hrest
        have hu := constant_of_constant? (Tree.allLexemes us ++ .rightParen :: rest) u v hv
        rwa [← List.append_assoc] at hu
    · obtain ⟨e, es', he, hes, rfl⟩ := (Tree.exprs?_cons_eq_some_iff ht).1 h
      rw [Tree.allLexemes, List.append_assoc]
      have hne := Tree.lexemes_append_ne_quote ht
      exact .cons ((taken_iff_of_ne_quote (hne _)).2 ⟨t, hbal.1, rfl, he⟩)
        (many_taken_of_exprs? ts es' hbal.2 hes)

/-- The expressions of several pieces are those taken one after another. -/
theorem many_taken_iff :
    Many Taken ls es (.rightParen :: rest) ↔
      ∃ ts, Tree.Encloses ls ts rest ∧ Tree.exprs? ts = some es := by
  constructor
  · exact exists_items_of_many_taken
  · rintro ⟨ts, ⟨hbal, rfl⟩, hes⟩
    exact many_taken_of_exprs? ts es hbal hes

end Grammar

end PocketLisp
