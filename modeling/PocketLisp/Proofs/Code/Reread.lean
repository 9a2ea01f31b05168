import PocketLisp.Proofs.Code.Spelled
import PocketLisp.Proofs.Input.Scripts
import PocketLisp.Proofs.Value.Reread

/-!
# Reading undoes printing, for code

The printed form of what is read from a text has the lexemes of the text, only that numerals are in
their shortest form and that the quote marks of quoted constants are missing. Where these constants
are numbers, nothing is lost by that, and the printed form is read as the same expression.

## Main definitions

- `Expr.OnlyNumbers` — all constants inside an expression are numbers
- `Expr.tree` — the piece that such an expression is printed as
- `Token.code` — the lexemes of tokens, without the line ends

## Main statements

- `Expr.item_tree` — the piece is read as the expression
- `parse_lexemes` — and so is the printed form
- `printed_code` — what the printed form of a text is made of, and what it is read as

## Design notes

A quote mark that goes missing, or a numeral that is written otherwise, could make another rule
apply: a call could become a `lambda` or a special form. It does not, because formals and targets
are names, and no numeral is one.
-/

namespace PocketLisp

open TokenStream (completeLine completeLine_of_notMem)

namespace Expr

/-- The expression itself is no constant, or a number. -/
def HoldsNumber (e : Expr) : Prop := ∀ v, e = literal v → ∃ n, v = .number n

/-- Every constant inside the expression is a number. -/
def OnlyNumbers (e : Expr) : Prop := e.All HoldsNumber

mutual

/-- The piece that an expression is printed as, if its constants are numbers. -/
def tree : Expr → Tree
  | literal v => .leaf (.atom v.text)
  | var x => .leaf (.ofName x)
  | lambda formals body =>
    .group [.leaf (.atom "lambda"), .group (formals.map fun x => .leaf (.ofName x)), body.tree]
  | special keyword args => .group (.leaf (.atom keyword.text) :: trees args)
  | call operator args => .group (operator.tree :: trees args)

/-- The pieces that several expressions are printed as. -/
def trees : List Expr → List Tree
  | [] => []
  | e :: es => e.tree :: trees es

end

variable {e f a : Expr} {es args : List Expr} {l : Lexeme} {x : String} {xs : List String}
  {items item rest formals ts : List Tree} {v : Value} {n : Word}

/-! ### The lexemes of the piece -/

theorem balanced_ofName (x : String) : (Tree.leaf (.ofName x)).Balanced := by
  rcases Lexeme.ofName_cases x with h | h
  · simp [Tree.Balanced, h]
  · simp [Tree.Balanced, h]

theorem allBalanced_names (xs : List String) :
    Tree.AllBalanced (xs.map fun x => .leaf (.ofName x)) := by
  induction xs with
  | nil => trivial
  | cons x xs ih => exact ⟨balanced_ofName x, ih⟩

theorem allLexemes_names (xs : List String) :
    Tree.allLexemes (xs.map fun x => .leaf (.ofName x)) = xs.map .ofName := by
  induction xs with
  | nil => rfl
  | cons x xs ih => rw [List.map_cons, Tree.allLexemes, ih, Tree.lexemes, List.map_cons]; rfl

mutual

theorem balanced_tree : ∀ e : Expr, e.tree.Balanced
  | literal _ => ⟨nofun, nofun⟩
  | var x => balanced_ofName x
  | lambda formals body =>
    ⟨⟨nofun, nofun⟩, allBalanced_names formals, balanced_tree body, trivial⟩
  | special _ args => ⟨⟨nofun, nofun⟩, allBalanced_trees args⟩
  | call operator args => ⟨balanced_tree operator, allBalanced_trees args⟩

theorem allBalanced_trees : ∀ es : List Expr, Tree.AllBalanced (trees es)
  | [] => trivial
  | e :: es => ⟨balanced_tree e, allBalanced_trees es⟩

end

mutual

theorem lexemes_tree : ∀ e : Expr, e.OnlyNumbers → e.tree.lexemes = e.lexemes
  | literal v, h => by
    obtain ⟨n, rfl⟩ := h v rfl
    rfl
  | var x, _ => rfl
  | lambda formals body, h => by
    simp [tree, Tree.lexemes, Tree.allLexemes, allLexemes_names, lexemes, lexemes_tree body h.2]
  | special keyword args, h => by
    simp [tree, Tree.lexemes, Tree.allLexemes, lexemes, allLexemes_trees args h.2]
  | call operator args, h => by
    simp [tree, Tree.lexemes, Tree.allLexemes, lexemes, lexemes_tree operator h.2.1,
      allLexemes_trees args h.2.2]

theorem allLexemes_trees : ∀ es : List Expr, AllArgs HoldsNumber es →
    Tree.allLexemes (trees es) = allLexemes es
  | [], _ => rfl
  | e :: es, h => by
    rw [trees, Tree.allLexemes, lexemes_tree e h.1, allLexemes_trees es h.2, allLexemes]

end

/-! ### Names and numbers -/

/-- The name of a lexeme is that of the lexeme it is printed as. -/
theorem name?_ofName (h : l.name? = some x) : (Lexeme.ofName x).name? = some x := by
  by_cases hquote : x = "'"
  · subst hquote
    rfl
  · rw [Lexeme.ofName, if_neg hquote, ← Tree.eq_atom_of_name? h hquote]
    exact h

theorem eq_of_name?_ofName {y : String} (h : (Lexeme.ofName x).name? = some y) : x = y := by
  by_cases hquote : x = "'"
  · subst hquote
    cases h
    rfl
  · rw [Lexeme.ofName, if_neg hquote] at h
    simp only [Lexeme.name?, Option.ite_none_right_eq_some, Option.some.injEq] at h
    exact h.2

theorem mapM_name?_ofName (h : ts.mapM Tree.name? = some xs) :
    (xs.map fun x => Tree.leaf (.ofName x)).mapM Tree.name? = some xs := by
  induction ts generalizing xs with
  | nil =>
    cases h
    rfl
  | cons t ts ih =>
    obtain ⟨l, x, xs', rfl, hx, hxs, rfl⟩ := Tree.mapM_name?_cons_eq_some_iff.1 h
    exact Tree.mapM_name?_cons_eq_some_iff.2 ⟨_, x, xs', rfl, name?_ofName hx, ih hxs, rfl⟩

theorem number?_text (n : Word) : (Lexeme.atom (Value.number n).text).number? = some n :=
  Numeral.read?_text n

/-- What is printed as names are variables. -/
theorem eq_vars_of_trees (hes : AllArgs HoldsNumber es) (h : (trees es).mapM Tree.name? = some xs) :
    es = xs.map .var := by
  induction es generalizing xs with
  | nil =>
    cases h
    rfl
  | cons e es ih =>
    obtain ⟨he, hes⟩ := hes
    obtain ⟨l, x, xs', hl, hx, hxs, rfl⟩ := Tree.mapM_name?_cons_eq_some_iff.1 h
    rw [List.map_cons, ← ih hes hxs]
    cases e with
    | literal v =>
      -- No numeral is a name.
      obtain ⟨n, rfl⟩ := he v rfl
      cases hl
      rw [Grammar.name?_eq_none_of_number? (number?_text n)] at hx
      cases hx
    | var y =>
      cases hl
      rw [eq_of_name?_ofName hx]
    | _ => cases hl

/-- What is printed as a quote mark is that variable. -/
theorem eq_var_of_tree (h : e.tree = .leaf .quote) : e = .var "'" := by
  cases e with
  | var x =>
    have hquote : Lexeme.ofName x = .quote := Tree.leaf.inj h
    have hname : (Lexeme.ofName x).name? = some "'" := by
      rw [hquote]
      rfl
    rw [eq_of_name?_ofName hname]
  | _ => cases h

/-- What is printed as a group of names was read from one. -/
theorem exists_names_of_tree (he : (Tree.group items).expr? = some a) (ha : a.OnlyNumbers)
    (htree : a.tree = .group formals) (hformals : formals.mapM Tree.name? = some xs) :
    ∃ ys, items.mapM Tree.name? = some ys := by
  cases a with
  | literal v => cases htree
  | var x => cases htree
  | lambda names body =>
    -- The formals of the `lambda` would be a name.
    cases htree
    obtain ⟨l, x, xs', -, -, hrest, -⟩ := Tree.mapM_name?_cons_eq_some_iff.1 hformals
    obtain ⟨l', x', xs'', hgroup, -⟩ := Tree.mapM_name?_cons_eq_some_iff.1 hrest
    cases hgroup
  | call f args =>
    cases htree
    have hvars : f :: args = xs.map .var := eq_vars_of_trees ha.2 hformals
    have hes := Tree.exprs?_of_expr?_call he
    rw [hvars] at hes
    exact ⟨xs, Tree.mapM_name?_of_exprs? hes⟩
  | special keyword args =>
    cases htree
    obtain ⟨l, x, xs', -, -, hrest, -⟩ := Tree.mapM_name?_cons_eq_some_iff.1 hformals
    have hvars : args = xs'.map .var := eq_vars_of_trees ha.2 hrest
    cases Tree.specialItems_of_expr? he with
    | branch hargs | loop hargs | sequence hargs =>
      rw [hvars] at hargs
      have hnames := Tree.mapM_name?_of_exprs? hargs
      exact ⟨_, Tree.mapM_name?_cons_eq_some_iff.2 ⟨_, _, xs', rfl, rfl, hnames, rfl⟩⟩
    | @assign l args' y value hl hargs =>
      obtain ⟨z, zs, rfl⟩ : ∃ z zs, xs' = z :: zs := by
        cases xs' with
        | nil => cases hvars
        | cons z zs => exact ⟨z, zs, rfl⟩
      obtain ⟨-, hvalue⟩ := List.cons.inj hvars
      rw [hvalue] at hargs
      have hnames := Tree.mapM_name?_of_exprs? hargs
      have htarget := Tree.mapM_name?_cons_eq_some_iff.2 ⟨l, y, zs, rfl, hl, hnames, rfl⟩
      exact ⟨_, Tree.mapM_name?_cons_eq_some_iff.2 ⟨_, _, _, rfl, rfl, htarget, rfl⟩⟩

/-! ### A call stays a call -/

/-- A call is not printed as a `lambda`. -/
theorem not_lambdaItems_of_call (he : (Tree.group items).expr? = some (.call f args))
    (hnumbers : AllArgs HoldsNumber (f :: args))
    (htrees : Tree.exprs? (trees (f :: args)) = some (f :: args)) :
    ∀ e', ¬ Tree.LambdaItems (trees (f :: args)) e' := by
  intro e' h
  generalize hts : trees (f :: args) = ts at h htrees
  cases h with
  | @mk formals body names value hformals hbody =>
    obtain ⟨hf, hargs⟩ := List.cons.inj hts
    cases args with
    | nil => cases hargs
    | cons a rest =>
      obtain ⟨ha, hrest⟩ := List.cons.inj hargs
      have hword : [f] = ["lambda"].map .var := by
        refine eq_vars_of_trees ⟨hnumbers.1, trivial⟩ ?_
        rw [trees, trees, hf]
        rfl
      cases hword
      -- The body is the one argument after the formals.
      have hrest' := Tree.exprs?_tail (Tree.exprs?_tail htrees nofun) nofun
      rw [hbody] at hrest'
      cases hrest'
      obtain ⟨l, items', rfl, hl, hitems⟩ := Tree.exprs?_eq_var_cons (Tree.exprs?_of_expr?_call he)
      obtain ⟨item, rest, rfl, hitem, hvalue, -⟩ := Tree.exprs?_eq_cons_iff.1 hitems
      obtain ⟨group, rfl, hgroup⟩ :=
        hitem.group (by rintro v rfl; cases ha) (by rintro y rfl; cases ha)
      obtain ⟨ys, hys⟩ := exists_names_of_tree hgroup hnumbers.2.1 ha hformals
      -- So the text had a `lambda` already.
      have hlambda : Tree.LambdaItems (.leaf l :: .group group :: rest) (.lambda ys value) := by
        rw [Tree.eq_atom_of_name? hl (by decide)]
        exact .mk hys hvalue
      have hcall := (Tree.expr?_of_lambdaItems hlambda).symm.trans he
      cases hcall

/-- A call is not printed as a special form. -/
theorem not_specialItems_of_call (he : (Tree.group items).expr? = some (.call f args))
    (htrees : Tree.exprs? (trees (f :: args)) = some (f :: args)) :
    ∀ e', ¬ Tree.SpecialItems (trees (f :: args)) e' := by
  intro e' h
  -- What begins with a name that is no quote mark is a call by this name.
  have hheaded : ∀ {l x rest es}, trees (f :: args) = .leaf l :: rest → l.name? = some x →
      l ≠ .quote → Tree.exprs? rest = some es → Expr.headed x es = .call (.var x) es := by
    intro l x rest es hcut hl hquote hrest
    rw [hcut, Tree.exprs?_name_cons hl hquote hrest] at htrees
    cases htrees
    exact Tree.headed_of_expr?_call he
  generalize hts : trees (f :: args) = ts at h htrees
  cases h with
  | branch hargs | loop hargs | sequence hargs =>
    have hcall := hheaded hts rfl nofun hargs
    cases hcall
  | @assign l args' x value hl hargs =>
    by_cases hquote : l = .quote
    · -- A variable that is printed as a quote mark is the last argument.
      subst hquote
      obtain ⟨-, hrest⟩ := List.cons.inj hts
      cases args with
      | nil => cases hrest
      | cons a rest =>
        obtain ⟨ha, -⟩ := List.cons.inj hrest
        have hes := Tree.exprs?_tail htrees nofun
        cases args' with
        | nil => cases hargs
        | cons t us =>
          obtain ⟨v, es, -, -, heq⟩ := Tree.exprs?_quote_cons_eq_some_iff.1 hes
          cases heq
          cases ha
    · have hcall := hheaded hts rfl nofun (Tree.exprs?_name_cons hl hquote hargs)
      cases hcall

/-! ### What is printed is read -/

/-- Only a quote mark is printed as one. -/
theorem quote_of_tree (hitem : Tree.Item item e)
    (hwritten : ∀ l ∈ Tree.allLexemes item, l.Written) (h : e.tree = .leaf .quote) :
    item = [.leaf .quote] := by
  rw [eq_var_of_tree h] at hitem
  obtain ⟨l, rfl, hl⟩ := hitem.var
  have hl' : l.Written := hwritten l (List.mem_singleton_self l)
  rw [← hl'.ofName_eq hl]
  rfl

theorem exprs?_trees_cons (hitem : Tree.Item item e)
    (hwritten : ∀ l ∈ Tree.allLexemes item, l.Written) (hrest : Tree.exprs? rest = some es)
    (hlast : item = [.leaf .quote] → rest = []) (he : Tree.Item [e.tree] e)
    (hes : Tree.exprs? (trees es) = some es) :
    Tree.exprs? (trees (e :: es)) = some (e :: es) := by
  refine Tree.exprs?_eq_cons_iff.2 ⟨[e.tree], trees es, rfl, he, hes, fun hquote => ?_⟩
  rw [hlast (quote_of_tree hitem hwritten (List.singleton_inj.1 hquote))] at hrest
  cases hrest
  rfl

theorem item_of_group (h : (Tree.group items).expr? = some e) : Tree.Item [.group items] e :=
  .piece nofun h

theorem written_items (h : ∀ l ∈ Tree.allLexemes [.group items], l.Written) :
    ∀ l ∈ Tree.allLexemes items, l.Written := by
  intro l hl
  exact h l (by simp [Tree.allLexemes, Tree.lexemes, hl])

mutual

/-- The piece that an expression is printed as is read as this expression. -/
theorem item_tree : ∀ (e : Expr) (item : List Tree), Tree.Item item e → e.OnlyNumbers →
    (∀ l ∈ Tree.allLexemes item, l.Written) → Tree.Item [e.tree] e
  | literal v, item, h, hnumbers, hwritten => by
    obtain ⟨n, rfl⟩ := hnumbers v rfl
    exact .piece nofun (Grammar.expr?_eq_some_iff.2 (.inl ⟨n, number?_text n, rfl⟩))
  | var x, item, h, hnumbers, hwritten => by
    obtain ⟨l, rfl, hl⟩ := h.var
    by_cases hquote : x = "'"
    · subst hquote
      exact .quote
    · have hname := name?_ofName hl
      have hne : Lexeme.ofName x ≠ .quote := by
        rw [Lexeme.ofName, if_neg hquote]
        exact nofun
      exact .piece (by simpa [tree] using hne) (Grammar.expr?_eq_some_iff.2 (.inr ⟨x, hname, rfl⟩))
  | lambda formals body, item, h, hnumbers, hwritten => by
    obtain ⟨items, rfl, he⟩ := h.group nofun nofun
    have hitems := written_items hwritten
    obtain ⟨hnames, hbody⟩ := Tree.lambdaItems_of_expr? he
    simp only [Tree.allLexemes, List.forall_mem_append] at hitems
    have hvalue := item_tree body _ (Tree.item_of_exprs? hbody) hnumbers.2 hitems.2.2
    exact item_of_group (Tree.expr?_of_lambdaItems
      (.mk (mapM_name?_ofName hnames) (Tree.exprs?_of_item hvalue)))
  | special keyword args, item, h, hnumbers, hwritten => by
    obtain ⟨items, rfl, he⟩ := h.group nofun nofun
    have hitems := written_items hwritten
    refine item_of_group (Tree.expr?_of_specialItems ?_)
    cases Tree.specialItems_of_expr? he with
    | branch hargs =>
      exact .branch (exprs?_trees _ _ hargs hnumbers.2 (List.forall_mem_cons.1 hitems).2)
    | loop hargs =>
      exact .loop (exprs?_trees _ _ hargs hnumbers.2 (List.forall_mem_cons.1 hitems).2)
    | sequence hargs =>
      exact .sequence (exprs?_trees _ _ hargs hnumbers.2 (List.forall_mem_cons.1 hitems).2)
    | @assign l args' x value hl hargs =>
      have hargs' : ∀ l ∈ Tree.allLexemes args', l.Written :=
        (List.forall_mem_cons.1 (List.forall_mem_cons.1 hitems).2).2
      exact .assign (name?_ofName hl) (exprs?_trees [value] _ hargs hnumbers.2.2 hargs')
  | call operator args, item, h, hnumbers, hwritten => by
    obtain ⟨items, rfl, he⟩ := h.group nofun nofun
    have hitems := written_items hwritten
    obtain ⟨first, rest, rfl, hfirst, hrest, hlast⟩ :=
      Tree.exprs?_eq_cons_iff.1 (Tree.exprs?_of_expr?_call he)
    rw [Tree.allLexemes_append, List.forall_mem_append] at hitems
    have htrees := exprs?_trees_cons hfirst hitems.1 hrest hlast
      (item_tree operator first hfirst hnumbers.2.1 hitems.1)
      (exprs?_trees args rest hrest hnumbers.2.2 hitems.2)
    refine item_of_group (Tree.expr?_group_eq_some_iff.2 (.inr (.inr ⟨?_, ?_, _, _, htrees, rfl⟩)))
    · exact not_lambdaItems_of_call he hnumbers.2 htrees
    · exact not_specialItems_of_call he htrees

/-- The pieces that expressions are printed as are read as these expressions. -/
theorem exprs?_trees : ∀ (es : List Expr) (ts : List Tree), Tree.exprs? ts = some es →
    AllArgs HoldsNumber es → (∀ l ∈ Tree.allLexemes ts, l.Written) →
    Tree.exprs? (trees es) = some es
  | [], _, _, _, _ => rfl
  | e :: es, ts, h, hnumbers, hwritten => by
    obtain ⟨item, rest, rfl, hitem, hrest, hlast⟩ := Tree.exprs?_eq_cons_iff.1 h
    rw [Tree.allLexemes_append, List.forall_mem_append] at hwritten
    exact exprs?_trees_cons hitem hwritten.1 hrest hlast
      (item_tree e item hitem hnumbers.1 hwritten.1)
      (exprs?_trees es rest hrest hnumbers.2 hwritten.2)

end

end Expr

variable {ls : List Lexeme} {ts : List Token} {e : Expr} {text : String}

/-- Where all constants are numbers, the printed form of what is read is read as the same. -/
theorem parse_lexemes (h : parse ls = .ok e) (hwritten : ∀ l ∈ ls, l.Written)
    (hnumbers : e.OnlyNumbers) : parse e.lexemes = .ok e := by
  obtain ⟨item, -, rfl, hitem⟩ := parse_eq_ok_iff_item.1 h
  refine parse_eq_ok_iff_item.2 ⟨[e.tree], ⟨e.balanced_tree, trivial⟩, ?_, ?_⟩
  · rw [Tree.allLexemes, Tree.allLexemes, List.append_nil, e.lexemes_tree hnumbers]
  · exact e.item_tree item hitem hnumbers hwritten

/-! ### Texts -/

/-- The lexemes of tokens, without the line ends. -/
def Token.code (ts : List Token) : List Lexeme := (ts.map Token.lexeme).filter (· ≠ .newline)

theorem Token.code_eq (h : ts.map Token.lexeme = ls ++ [.newline]) (hls : .newline ∉ ls) :
    Token.code ts = ls := by
  have hkept : ls.filter (· ≠ .newline) = ls := by
    rw [List.filter_eq_self]
    intro l hl
    have hne : l ≠ .newline := fun heq => hls (heq ▸ hl)
    simpa using hne
  rw [Token.code, h, List.filter_append, hkept]
  simp

/-- What a text is cut into can be written. -/
theorem Token.written_of_mem_code (h : tokenize text = .ok ts) :
    ∀ l ∈ Token.code ts, l.Written := by
  intro l hl
  obtain ⟨us, hus, hlexemes⟩ := lexemes_tokenize text
  rw [h] at hus
  cases hus
  rw [Token.code, List.mem_filter, hlexemes] at hl
  exact Lexeme.written_of_mem_scanAll hl.1 (by simpa using hl.2)

/-- The tokens of a printed form have its lexemes. -/
theorem Expr.tokenize_text (h : e.Readable) :
    ∃ ts, tokenize e.text = .ok ts ∧ Token.code ts = e.lexemes := by
  have hchars : e.text.toList = e.chars := String.toList_ofList
  have hnewline : '\n' ∉ e.text.toList := by
    rw [hchars]
    exact e.newline_notMem_chars h
  have hne : e.text ≠ "" := by
    intro hempty
    rw [hempty] at hchars
    exact Expr.chars_ne_nil h hchars.symm
  obtain ⟨ts, hts, hlexemes⟩ := Value.tokenize_of_notMem hnewline hne
  refine ⟨ts, hts, Token.code_eq ?_ e.newline_notMem_lexemes⟩
  rw [hlexemes, hchars, e.scanAll_chars _ h (Value.delimited_cons (by decide)),
    Lexeme.scanAll_newline, Lexeme.scanAll_nil]

/-- The printed form of what a text is read as has the lexemes of the text in their order, numerals
in their shortest form, and lacks just the quote marks that begin a quoted constant, which there is
one way to tell from the others. If all constants are numbers, it is read as the same. -/
theorem printed_code (htokens : tokenize text = .ok ts) (hparse : parse (Token.code ts) = .ok e) :
    ∃ ms ts', ms.map Marked.lexeme = Token.code ts ∧ e.Spelled ms ∧
      (∀ ms', ms'.map Marked.lexeme = Token.code ts → e.Spelled ms' → ms' = ms) ∧
      tokenize e.text = .ok ts' ∧
      Token.code ts' = (Marked.kept ms).map Lexeme.canonical ∧
      (e.OnlyNumbers → parse (Token.code ts') = .ok e) := by
  have hwritten := Token.written_of_mem_code htokens
  obtain ⟨item, -, hitems, hitem⟩ := parse_eq_ok_iff_item.1 hparse
  obtain ⟨ms, hms, hspelled⟩ := Expr.exists_spelled_of_item e item hitem
  rw [← hitems] at hms
  have hmarked : ∀ m ∈ ms, m.lexeme.Written := fun m hm =>
    hwritten m.lexeme (hms ▸ List.mem_map_of_mem hm)
  obtain ⟨hreadable, hlexemes⟩ := hspelled.printed hmarked
  obtain ⟨ts', hts', hcode⟩ := Expr.tokenize_text hreadable
  refine ⟨ms, ts', hms, hspelled, ?_, hts', hcode.trans hlexemes, fun hnumbers => ?_⟩
  · exact fun ms' hms' hspelled' => hspelled'.unique hspelled (hms'.trans hms.symm)
  · rw [hcode]
    exact parse_lexemes hparse hwritten hnumbers

/-- The quote mark in front of a number goes, and the one that is a variable stays. -/
theorem printed_code_quoted :
    ∃ ts ts', tokenize "(f '007 ')" = .ok ts ∧
      parse (Token.code ts) = .ok (.call (.var "f") [.literal (.number 7), .var "'"]) ∧
      tokenize "(f 7 ')" = .ok ts' ∧
      Token.code ts' = [.leftParen, .atom "f", .atom "7", .quote, .rightParen] ∧
      parse (Token.code ts') = .ok (.call (.var "f") [.literal (.number 7), .var "'"]) := by
  obtain ⟨ts, hts, hlexemes⟩ := lexemes_tokenize "(f '007 ')"
  have hscan : Lexeme.scanAll (completeLine "(f '007 ')".toList) =
      [.leftParen, .atom "f", .quote, .atom "007", .quote, .rightParen] ++ [.newline] := by
    have hname : Lexeme.IsAtom "f".toList := .of_all (by decide)
    have hnumeral : Lexeme.IsAtom "007".toList := .of_all (by decide)
    rw [completeLine_of_notMem (by decide) (by decide)]
    show Lexeme.scanAll ('(' :: ("f".toList ++ ' ' :: '\x27' :: ("007".toList ++
      ' ' :: '\x27' :: ')' :: '\n' :: []))) = _
    rw [Lexeme.scanAll_leftParen, Lexeme.scanAll_atom hname (Value.delimited_cons (by decide)),
      Lexeme.scanAll_blank (by decide), Lexeme.scanAll_quote,
      Lexeme.scanAll_atom hnumeral (Value.delimited_cons (by decide)),
      Lexeme.scanAll_blank (by decide), Lexeme.scanAll_quote, Lexeme.scanAll_rightParen,
      Lexeme.scanAll_newline, Lexeme.scanAll_nil]
    rfl
  have hcode := Token.code_eq (hlexemes.trans hscan) (by decide)
  have hparse : parse (Token.code ts) =
      .ok (.call (.var "f") [.literal (.number 7), .var "'"]) := by
    rw [hcode]
    rfl
  obtain ⟨ms, ts', -, -, hunique, hts', hprinted, hread⟩ := printed_code hts hparse
  have hspelled : (Expr.call (.var "f") [.literal (.number 7), .var "'"]).Spelled
      (.plain .leftParen :: ([.plain (.atom "f")] ++ (([⟨.quote, true⟩, .plain (.atom "007")] ++
        ([.plain .quote] ++ [])) ++ [.plain .rightParen]))) := by
    have hconstant : Grammar.Constant [.atom "007"] (.number 7) [] :=
      .number (.of_read? (by decide))
    exact .call (.var (by decide)) (.cons (.quoted hconstant) (.cons (.var rfl) .nil))
  have hms := hunique _ (by rw [hcode]; rfl) hspelled
  have htext : (Expr.call (.var "f") [.literal (.number 7), .var "'"]).text = "(f 7 ')" := by
    decide +kernel
  rw [htext] at hts'
  refine ⟨ts, ts', hts, hparse, hts', ?_, hread ?_⟩
  · rw [hprinted, ← hms]
    decide +kernel
  · refine ⟨nofun, nofun, ?_, nofun, trivial⟩
    rintro v ⟨⟩
    exact ⟨7, rfl⟩

end PocketLisp
