import PocketLisp.Proofs.Grammar.Descent

/-!
# Recursive descent ends

However the tokens are chosen, trying a rule at a place ends, and what it finds is what is read
there. A rule that applies uses up a token before it tries another one that could lead back to it,
so the depth that is needed is at most the number of tokens left.

## Main definitions

- `Trial.InBounds` — a trial ends, and what it finds lies within the text
- `Descent.InBounds` — so do the trials with all rules at a place

## Main statements

- `Descent.constant_tells`, `Descent.expression_tells` — the rules find what the grammar derives
- `descent_ends` — at every place of every text, and for whole forms
-/

namespace PocketLisp

open Grammar

/-! ### Readings are unique -/

namespace Grammar

variable {ls rest : List Lexeme}

theorem unique_of_takes {α : Type} {R : Reading α} {take? : List Lexeme → Option (α × List Lexeme)}
    (htake : ∀ ls x rest, take? ls = some (x, rest) ↔ R ls x rest) : Unique R := by
  intro ls x rest x' rest' h h'
  rw [← htake] at h h'
  rw [h] at h'
  cases h'
  exact ⟨rfl, rfl⟩

theorem unique_constant : Unique Constant := unique_of_takes fun _ _ _ => takeConstant?_eq_some_iff

theorem unique_expression : Unique Expression := unique_of_takes fun _ _ _ => takeExpr?_eq_some_iff

theorem number_iff_meaning {n : Word} : Meaning Lexeme.number? ls n rest ↔ Number ls n rest :=
  meaning_iff number_ne_nil number_cons_iff

theorem name_iff_meaning {x : String} : Meaning Lexeme.name? ls x rest ↔ Name ls x rest :=
  meaning_iff name_ne_nil name_cons_iff

theorem unique_name : Unique Name := fun _ _ _ _ _ h h' =>
  unique_meaning _ (name_iff_meaning.2 h) (name_iff_meaning.2 h')

theorem not_name_rightParen {x : String} : ¬ Name (.rightParen :: ls) x rest := nofun

theorem not_expression_rightParen {e : Expr} : ¬ Expression (.rightParen :: ls) e rest := by
  intro h
  cases takeExpr?_eq_some_iff.2 h

theorem constants_iff_many {vs : List Value} : Constants ls vs rest ↔ Many Constant ls vs rest := by
  induction vs generalizing ls with
  | nil =>
    constructor
    · rintro ⟨⟩
      exact .nil
    · rintro ⟨⟩
      exact .nil
  | cons v vs ih =>
    constructor
    · rintro (_ | ⟨hv, hvs⟩)
      exact .cons hv (ih.1 hvs)
    · rintro (_ | ⟨hv, hvs⟩)
      exact .cons hv (ih.2 hvs)

end Grammar

/-! ### The rules, over rules that tell at all later places -/

namespace Descent

variable {α : Type} {ts : List Token} {i depth : Nat} {R : Reading α} {item : Descent α}
  {expr : Descent Expr} {const : Descent Value}

/-- From place `i` on to the end of the text, the rule tells what the relation reads. -/
def TellsFrom (p : Descent α) (R : Reading α) (ts : List Token) (i : Nat) : Prop :=
  ∀ j, i ≤ j → j ≤ ts.length → (p ts j).Tells R ts j (j + 1)

theorem TellsFrom.mono {j : Nat} (h : item.TellsFrom R ts i) (hij : i ≤ j) :
    item.TellsFrom R ts j :=
  fun k hk => h k (Nat.le_trans hij hk)

/-- The closing parenthesis. -/
def Ending (x : α) : Reading α := fun ls y rest => y = x ∧ ls = .rightParen :: rest

theorem ending_tells (x : α) :
    ((do only .rightParen; return x : Descent α) ts i).Tells (Ending x) ts i (i + 1) := by
  refine ((Trial.Tells.only _).bind (unique_only _) fun _ j _ hj _ => .pure x hj).congr ?_
  intro ls y rest
  constructor
  · rintro ⟨_, _, rfl, rfl, rfl⟩
    exact ⟨rfl, rfl⟩
  · rintro ⟨rfl, rfl⟩
    exact ⟨(), _, rfl, rfl, rfl⟩

theorem number_tells : (number ts i).Tells Number ts i (i + 1) :=
  (Trial.Tells.one _).congr fun _ _ _ => number_iff_meaning

theorem name_tells : (name ts i).Tells Name ts i (i + 1) :=
  (Trial.Tells.one _).congr fun _ _ _ => name_iff_meaning

theorem many_tells (hitem : item.TellsFrom R ts i) (hi : i ≤ ts.length)
    (hdepth : ts.length - i < depth) : (many item depth ts i).Tells (Longest R) ts i i := by
  obtain ⟨xs, j, hmany, hj, hlength, hxs⟩ := many_stops hitem hi hdepth
  rw [hmany]
  exact .found (by omega) hlength hxs

/-- Items in parentheses. -/
def Enclosed (R : Reading α) : Reading (List α) := fun ls xs rest =>
  ∃ ls', ls = .leftParen :: ls' ∧ Many R ls' xs (.rightParen :: rest)

theorem unique_enclosed (hR : Unique R) (hend : ∀ {ls x rest}, ¬ R (.rightParen :: ls) x rest) :
    Unique (Enclosed R) := by
  rintro _ xs rest xs' rest' ⟨ls, rfl, h⟩ ⟨ls', heq, h'⟩
  cases heq
  obtain ⟨rfl, hrest⟩ := hR.longest ((longest_iff hend).2 h) ((longest_iff hend).2 h')
  cases hrest
  exact ⟨rfl, rfl⟩

theorem enclosed_tells (hR : Unique R) (hend : ∀ {ls x rest}, ¬ R (.rightParen :: ls) x rest)
    (hitem : item.TellsFrom R ts (i + 1)) (hdepth : ts.length - i ≤ depth) :
    (enclosed item depth ts i).Tells (Enclosed R) ts i (i + 1) := by
  refine ((Trial.Tells.only _).bind (unique_only _) fun _ j hj hlength _ =>
    (many_tells (hitem.mono hj) hlength (by omega)).bind hR.longest fun xs _ _ _ _ =>
    (ending_tells xs).weaken).congr fun ls xs rest => ⟨?_, ?_⟩
  · rintro ⟨_, ls', rfl, xs, _, ⟨hxs, -⟩, rfl, rfl⟩
    exact ⟨ls', rfl, hxs⟩
  · rintro ⟨ls', rfl, hxs⟩
    exact ⟨(), _, rfl, _, _, (longest_iff hend).2 hxs, rfl, rfl⟩

/-! ### Constants -/

theorem list_tells (hconst : const.TellsFrom Constant ts (i + 1)) (hdepth : ts.length - i ≤ depth) :
    (list const depth ts i).Tells
      (fun ls v rest => ∃ vs, Enclosed Constant ls vs rest ∧ v = .ofList vs) ts i (i + 1) :=
  (enclosed_tells unique_constant not_constant_rightParen hconst hdepth).map _

/-- Trying the rule of constants tells which constant the grammar derives. -/
theorem constant_tells (hdepth : ts.length - i < depth) :
    (constant depth ts i).Tells Constant ts i (i + 1) := by
  induction depth generalizing i with
  | zero => omega
  | succ depth ih =>
    have hconst : (constant depth).TellsFrom Constant ts (i + 1) :=
      fun j hj hlength => ih (by omega)
    unfold constant
    refine (number_tells.map Value.number).orElse ?_ fun hnumber =>
      (name_tells.map Value.symbol).orElse ?_ fun hname =>
        (list_tells hconst (Nat.lt_succ_iff.1 hdepth)).congrAt fun v rest => ⟨?_, fun hv => ?_⟩
    · rintro v rest ⟨n, hn, rfl⟩
      exact .number hn
    · rintro v rest ⟨x, hx, rfl⟩
      exact .symbol hx
    · rintro ⟨vs, ⟨ls', heq, hvs⟩, rfl⟩
      rw [heq]
      exact .list (constants_iff_many.2 hvs)
    · generalize Token.lexemesFrom ts i = ls at *
      cases hv with
      | number hn => exact absurd ⟨_, hn, rfl⟩ (hnumber _ _)
      | symbol hx => exact absurd ⟨_, hx, rfl⟩ (hname _ _)
      | list hvs => exact ⟨_, ⟨_, rfl, constants_iff_many.1 hvs⟩, rfl⟩

/-! ### Expressions -/

/-- A parenthesis and the word after it. -/
def Opening (word : String) : Reading Unit := fun ls _ rest =>
  ls = .leftParen :: .atom word :: rest

theorem unique_opening (word : String) : Unique (Opening word) := by
  rintro _ _ rest _ rest' rfl heq
  cases heq
  exact ⟨rfl, rfl⟩

theorem keyword_tells (word : String) :
    (keyword word ts i).Tells (Opening word) ts i (i + 1) := by
  refine ((Trial.Tells.only _).bind (unique_only _) fun _ j _ _ _ =>
    (Trial.Tells.only (.atom word)).mono (Nat.le_succ j)).congr ?_
  intro ls u rest
  constructor
  · rintro ⟨_, mid, rfl, rfl⟩
    rfl
  · rintro rfl
    exact ⟨(), _, rfl, rfl⟩

/-- As many expressions as there are, and at least one. -/
def Expressions : Reading (List Expr) := fun ls es rest => es ≠ [] ∧ Longest Expression ls es rest

theorem unique_expressions : Unique Expressions := fun _ _ _ _ _ h h' =>
  unique_expression.longest h.2 h'.2

/-- A special form with this keyword. -/
def SpecialOf (word : String) : Reading Expr := fun ls e rest =>
  Special Expression ls e rest ∧ ∃ ls', ls = .leftParen :: .atom word :: ls'

/-- A group of an operator and its arguments, whatever they are. -/
def Call : Reading Expr := fun ls e rest =>
  ∃ ls' f args, ls = .leftParen :: ls' ∧ Many Expression ls' (f :: args) (.rightParen :: rest) ∧
    e = .call f args

/-- A special form is one with some keyword. -/
theorem special_cases {ls rest : List Lexeme} {e : Expr} (h : Special Expression ls e rest) :
    SpecialOf "if" ls e rest ∨ SpecialOf "while" ls e rest ∨ SpecialOf "set" ls e rest ∨
      SpecialOf "begin" ls e rest := by
  have hspecial := h
  cases h with
  | branch => exact .inl ⟨hspecial, _, rfl⟩
  | loop => exact .inr (.inl ⟨hspecial, _, rfl⟩)
  | assign => exact .inr (.inr (.inl ⟨hspecial, _, rfl⟩))
  | sequence => exact .inr (.inr (.inr ⟨hspecial, _, rfl⟩))

/-- Where no other rule applies, that of a call may. -/
theorem rule_iff_call {ls rest : List Lexeme} {e : Expr}
    (hplain : ∀ e rest, ¬ Plain Expression ls e rest) (hname : ∀ x rest, ¬ Name ls x rest)
    (hspecial : ∀ e rest, ¬ Special Expression ls e rest) :
    Rule Expression ls e rest ↔ Call ls e rest := by
  constructor
  · intro h
    cases h with
    | plain h => exact absurd h (hplain _ _)
    | name h => exact absurd h (hname _ _)
    | special h => exact absurd h (hspecial _ _)
    | call _ _ h => exact ⟨_, _, _, rfl, h, rfl⟩
  · rintro ⟨ls', f, args, rfl, h, rfl⟩
    exact .call (fun _ _ h => hplain _ _ (.lambda h)) hspecial h

theorem unique_formals : Unique (Enclosed Name) := unique_enclosed unique_name not_name_rightParen

theorem formals_tells (hdepth : ts.length - i ≤ depth) :
    (formals depth ts i).Tells (Enclosed Name) ts i (i + 1) :=
  enclosed_tells unique_name not_name_rightParen (fun _ _ _ => name_tells) hdepth

theorem quoted_tells (hconst : const.TellsFrom Constant ts (i + 1)) :
    (quoted const ts i).Tells (fun ls v rest => ∃ ls', ls = .quote :: ls' ∧ Constant ls' v rest)
      ts i (i + 1) := by
  refine ((Trial.Tells.only .quote).bind (unique_only _) fun _ j hj hlength _ =>
    (hconst j hj hlength).weaken).congr fun ls v rest => ⟨?_, ?_⟩
  · rintro ⟨_, ls', rfl, hv⟩
    exact ⟨ls', rfl, hv⟩
  · rintro ⟨ls', rfl, hv⟩
    exact ⟨(), _, rfl, hv⟩

theorem callOf_tells {es : List Expr} (hne : es ≠ []) :
    ((do only .rightParen; callOf es : Descent Expr) ts i).Tells
      (fun ls e rest => ∃ f args, es = f :: args ∧ Ending (.call f args) ls e rest)
      ts i (i + 1) := by
  cases es with
  | nil => exact absurd rfl hne
  | cons f args =>
    refine (ending_tells (Expr.call f args)).congr fun ls e rest => ⟨fun h => ⟨f, args, rfl, h⟩, ?_⟩
    rintro ⟨f', args', heq, h⟩
    cases heq
    exact h

/-- The first expression is tried at the place of all of them, the others at later ones. -/
theorem expressions_tells (hfirst : (expr ts i).Tells Expression ts i (i + 1))
    (hexpr : expr.TellsFrom Expression ts (i + 1)) (hdepth : ts.length - i ≤ depth) :
    (expressions expr depth ts i).Tells Expressions ts i (i + 1) := by
  refine (hfirst.bind unique_expression fun e j hj hlength _ =>
    (many_tells (hexpr.mono hj) hlength (by omega)).map (e :: ·)).congr fun ls es rest => ⟨?_, ?_⟩
  · rintro ⟨e, mid, he, es', ⟨hes, hend⟩, rfl⟩
    exact ⟨List.cons_ne_nil _ _, .cons he hes, hend⟩
  · rintro ⟨hne, hes, hend⟩
    cases hes with
    | nil => exact absurd rfl hne
    | cons he hes => exact ⟨_, _, he, _, ⟨hes, hend⟩, rfl⟩

section
variable (hexpr : expr.TellsFrom Expression ts (i + 1))
include hexpr

theorem expressions_tellsFrom (hdepth : ts.length - i ≤ depth) :
    (expressions expr depth).TellsFrom Expressions ts (i + 1) := fun j hj hlength =>
  expressions_tells (hexpr j hj hlength) (hexpr.mono (by omega)) (by omega)

theorem branch_tells : (branch expr ts i).Tells (SpecialOf "if") ts i (i + 1) := by
  refine ((keyword_tells "if").bind (unique_opening _) fun _ j hj hlength _ =>
    (hexpr j hj hlength).weaken.bind unique_expression fun c k hk hlength _ =>
    (hexpr k (by omega) hlength).weaken.bind unique_expression fun t l hl hlength _ =>
    (hexpr l (by omega) hlength).weaken.bind unique_expression fun f _ _ _ _ =>
    (ending_tells (Expr.special .branch [c, t, f])).weaken).congr fun ls e rest => ⟨?_, ?_⟩
  · rintro ⟨_, ls', rfl, c, _, hc, t, _, ht, f, _, hf, rfl, rfl⟩
    exact ⟨.branch (.cons hc (.cons ht (.cons hf .nil))), ls', rfl⟩
  · rintro ⟨h | h | h | h, ls', heq⟩
    · obtain _ | ⟨hc, _ | ⟨ht, _ | ⟨hf, hnil⟩⟩⟩ := h
      cases hnil
      exact ⟨(), _, rfl, _, _, hc, _, _, ht, _, _, hf, rfl, rfl⟩
    all_goals simp at heq

theorem loop_tells : (loop expr ts i).Tells (SpecialOf "while") ts i (i + 1) := by
  refine ((keyword_tells "while").bind (unique_opening _) fun _ j hj hlength _ =>
    (hexpr j hj hlength).weaken.bind unique_expression fun c k hk hlength _ =>
    (hexpr k (by omega) hlength).weaken.bind unique_expression fun b _ _ _ _ =>
    (ending_tells (Expr.special .loop [c, b])).weaken).congr fun ls e rest => ⟨?_, ?_⟩
  · rintro ⟨_, ls', rfl, c, _, hc, b, _, hb, rfl, rfl⟩
    exact ⟨.loop (.cons hc (.cons hb .nil)), ls', rfl⟩
  · rintro ⟨h | h | h | h, ls', heq⟩
    · simp at heq
    · obtain _ | ⟨hc, _ | ⟨hb, hnil⟩⟩ := h
      cases hnil
      exact ⟨(), _, rfl, _, _, hc, _, _, hb, rfl, rfl⟩
    all_goals simp at heq

theorem assign_tells : (assign expr ts i).Tells (SpecialOf "set") ts i (i + 1) := by
  refine ((keyword_tells "set").bind (unique_opening _) fun _ j hj hlength _ =>
    name_tells.weaken.bind unique_name fun x k hk hlength _ =>
    (hexpr k (by omega) hlength).weaken.bind unique_expression fun e _ _ _ _ =>
    (ending_tells (Expr.special .assign [.var x, e])).weaken).congr fun ls e rest => ⟨?_, ?_⟩
  · rintro ⟨_, ls', rfl, x, _, hx, e, _, he, rfl, rfl⟩
    exact ⟨.assign hx he, ls', rfl⟩
  · rintro ⟨h | h | @⟨_, _, _, _, _, hx, he⟩ | h, ls', heq⟩
    · simp at heq
    · simp at heq
    · exact ⟨(), _, rfl, _, _, hx, _, _, he, rfl, rfl⟩
    · simp at heq

theorem sequence_tells (hdepth : ts.length - i ≤ depth) :
    (sequence expr depth ts i).Tells (SpecialOf "begin") ts i (i + 1) := by
  refine ((keyword_tells "begin").bind (unique_opening _) fun _ j hj hlength _ =>
    (expressions_tellsFrom hexpr hdepth j hj hlength).weaken.bind unique_expressions
    fun es _ _ _ _ =>
    (ending_tells (Expr.special .sequence es)).weaken).congr fun ls e rest => ⟨?_, ?_⟩
  · rintro ⟨_, ls', rfl, es, _, ⟨hne, hes, -⟩, rfl, rfl⟩
    cases es with
    | nil => exact absurd rfl hne
    | cons e es => exact ⟨.sequence hes, ls', rfl⟩
  · rintro ⟨h | h | h | h, ls', heq⟩
    · simp at heq
    · simp at heq
    · simp at heq
    · have hlongest := (longest_iff not_expression_rightParen).2 h
      exact ⟨(), _, rfl, _, _, ⟨List.cons_ne_nil _ _, hlongest⟩, rfl, rfl⟩

/-- The items of a call are at least one, so that there is an operator among them. -/
theorem call_tells (hdepth : ts.length - i ≤ depth) :
    (call expr depth ts i).Tells Call ts i (i + 1) := by
  refine ((Trial.Tells.only .leftParen).bind (unique_only _) fun _ j hj hlength _ =>
    (expressions_tellsFrom hexpr hdepth j hj hlength).weaken.bind unique_expressions
    fun es _ _ _ hes =>
    (callOf_tells hes.1).weaken).congr fun ls e rest => ⟨?_, ?_⟩
  · rintro ⟨_, ls', rfl, _, _, ⟨-, hes, -⟩, f, args, rfl, rfl, rfl⟩
    exact ⟨ls', f, args, rfl, hes, rfl⟩
  · rintro ⟨ls', f, args, rfl, hes, rfl⟩
    have hlongest := (longest_iff not_expression_rightParen).2 hes
    exact ⟨(), _, rfl, _, _, ⟨List.cons_ne_nil _ _, hlongest⟩, f, args, rfl, rfl, rfl⟩

theorem lambda_tells (hdepth : ts.length - i ≤ depth) :
    (lambda expr depth ts i).Tells (Lambda Expression) ts i (i + 1) := by
  refine ((keyword_tells "lambda").bind (unique_opening _) fun _ j hj hlength _ =>
    (formals_tells (by omega)).weaken.bind unique_formals fun xs k hk hlength _ =>
    (hexpr k (by omega) hlength).weaken.bind unique_expression fun body _ _ _ _ =>
    (ending_tells (Expr.lambda xs body)).weaken).congr fun ls e rest => ⟨?_, ?_⟩
  · rintro ⟨_, _, rfl, xs, _, ⟨ls', rfl, hxs⟩, body, _, hbody, rfl, rfl⟩
    exact .mk hxs hbody
  · rintro ⟨hxs, hbody⟩
    exact ⟨(), _, rfl, _, _, ⟨_, rfl, hxs⟩, _, _, hbody, rfl, rfl⟩

theorem plain_tells (hconst : const.TellsFrom Constant ts (i + 1))
    (hdepth : ts.length - i ≤ depth) :
    (plain expr const depth ts i).Tells (Plain Expression) ts i (i + 1) := by
  refine (number_tells.map _).orElse ?_ fun hnumber =>
    ((quoted_tells hconst).map _).orElse ?_ fun hquoted =>
      (lambda_tells hexpr hdepth).congrAt fun e rest => ⟨.lambda, fun he => ?_⟩
  · rintro e rest ⟨n, hn, rfl⟩
    exact .number hn
  · rintro e rest ⟨v, ⟨ls', heq, hv⟩, rfl⟩
    rw [heq]
    exact .quoted hv
  · generalize Token.lexemesFrom ts i = ls at *
    cases he with
    | number hn => exact absurd ⟨_, hn, rfl⟩ (hnumber _ _)
    | quoted hv => exact absurd ⟨_, ⟨_, rfl, hv⟩, rfl⟩ (hquoted _ _)
    | lambda h => exact h

end

/-- Trying the rule of expressions tells which expression the grammar derives. -/
theorem expression_tells (hdepth : ts.length - i < depth) :
    (expression depth ts i).Tells Expression ts i (i + 1) := by
  induction depth generalizing i with
  | zero => omega
  | succ depth ih =>
    have hexpr : (expression depth).TellsFrom Expression ts (i + 1) :=
      fun j hj hlength => ih (by omega)
    have hconst : (constant depth).TellsFrom Constant ts (i + 1) :=
      fun j hj hlength => constant_tells (by omega)
    have hdepth : ts.length - i ≤ depth := Nat.lt_succ_iff.1 hdepth
    have hspecial : ∀ word e rest, SpecialOf word (Token.lexemesFrom ts i) e rest →
        Rule Expression (Token.lexemesFrom ts i) e rest := fun _ _ _ h => .special h.1
    unfold expression
    -- The alternatives are the rules in turn, and one that is tried has none before it.
    refine Trial.Tells.congr (R := Rule Expression) ?_ fun _ _ _ => expression_iff_rule.symm
    refine (plain_tells hexpr hconst hdepth).orElse (fun _ _ => .plain) fun hplain =>
      (name_tells.map Expr.var).orElse ?_ fun hname =>
      (branch_tells hexpr).orElse (hspecial _) fun hbranch =>
      (loop_tells hexpr).orElse (hspecial _) fun hloop =>
      (assign_tells hexpr).orElse (hspecial _) fun hassign =>
      (sequence_tells hexpr hdepth).orElse (hspecial _) fun hsequence =>
      (call_tells hexpr hdepth).congrAt fun e rest => (rule_iff_call hplain ?_ ?_).symm
    · rintro e rest ⟨x, hx, rfl⟩
      refine .name hx fun ls' heq v rest' hv => hplain (.literal v) rest' ?_
      rw [heq]
      exact .quoted hv
    · exact fun x rest hx => hname _ _ ⟨x, hx, rfl⟩
    · intro e rest h
      rcases special_cases h with h | h | h | h
      · exact hbranch _ _ h
      · exact hloop _ _ h
      · exact hassign _ _ h
      · exact hsequence _ _ h

end Descent

/-! ### At every place of a text -/

section
variable {α : Type} {R : Reading α} {ts : List Token} {i : Nat}

/-- The trial ends, and what it finds ends after place `i` and within the text. -/
def Trial.InBounds (ts : List Token) (i : Nat) : Trial α → Prop
  | found _ j => i < j ∧ j ≤ ts.length
  | missed => True
  | crashed | unfinished => False

theorem Trial.Tells.inBounds {a : Trial α} (h : a.Tells R ts i (i + 1)) : a.InBounds ts i := by
  cases h with
  | found hj hlength _ => exact ⟨hj, hlength⟩
  | missed _ => trivial

/-- What is read at a place, or nothing. -/
def Trial.ofRead : Option (α × Nat) → Trial α
  | some (x, j) => found x j
  | none => missed

theorem Trial.Tells.eq_ofRead {a : Trial α} {read : Option (α × Nat)}
    (h : a.Tells R ts i (i + 1)) (hread : ∀ x j, read = some (x, j) ↔ At R ts i x j) :
    a = .ofRead read := by
  cases h with
  | @found x j hj hlength hx =>
    rw [(hread x j).2 ⟨Nat.le_of_lt hj, hlength, hx⟩]
    rfl
  | missed hnone =>
    cases read with
    | none => rfl
    | some xj => exact absurd ((hread _ _).1 rfl).2.2 (hnone _ _)

end

namespace Descent

variable {ts : List Token} {i depth : Nat}

/-- At place `i` the trial with every rule ends. A rule that applies ends after that place and
within the text, and a call has an operator. -/
structure InBounds (depth : Nat) (ts : List Token) (i : Nat) : Prop where
  expression : (expression depth ts i).InBounds ts i
  value : (plain (Descent.expression depth) (constant depth) depth ts i).InBounds ts i
  constant : (constant depth ts i).InBounds ts i
  branch : (branch (Descent.expression depth) ts i).InBounds ts i
  loop : (loop (Descent.expression depth) ts i).InBounds ts i
  assign : (assign (Descent.expression depth) ts i).InBounds ts i
  sequence : (sequence (Descent.expression depth) depth ts i).InBounds ts i
  call : (call (Descent.expression depth) depth ts i).InBounds ts i
  expressions : (expressions (Descent.expression depth) depth ts i).InBounds ts i
  lambda : (lambda (Descent.expression depth) depth ts i).InBounds ts i
  formals : (formals depth ts i).InBounds ts i
  quoted : (quoted (Descent.constant depth) ts i).InBounds ts i
  list : (list (Descent.constant depth) depth ts i).InBounds ts i
  number : (number ts i).InBounds ts i
  name : (name ts i).InBounds ts i
  keyword : ∀ word, (keyword word ts i).InBounds ts i
  only : ∀ l, (only l ts i).InBounds ts i

theorem inBounds (hdepth : ts.length - i < depth) : InBounds depth ts i := by
  have hexpr : (expression depth).TellsFrom Expression ts (i + 1) :=
    fun j hj _ => expression_tells (by omega)
  have hconst : (constant depth).TellsFrom Constant ts (i + 1) :=
    fun j hj _ => constant_tells (by omega)
  have hle := Nat.le_of_lt hdepth
  exact {
    expression := (expression_tells hdepth).inBounds
    value := (plain_tells hexpr hconst hle).inBounds
    constant := (constant_tells hdepth).inBounds
    branch := (branch_tells hexpr).inBounds
    loop := (loop_tells hexpr).inBounds
    assign := (assign_tells hexpr).inBounds
    sequence := (sequence_tells hexpr hle).inBounds
    call := (call_tells hexpr hle).inBounds
    expressions := (expressions_tells (expression_tells hdepth) hexpr hle).inBounds
    lambda := (lambda_tells hexpr hle).inBounds
    formals := (formals_tells hle).inBounds
    quoted := (quoted_tells hconst).inBounds
    list := (list_tells hconst hle).inBounds
    number := number_tells.inBounds
    name := name_tells.inBounds
    keyword := fun word => (keyword_tells word).inBounds
    only := fun l => (Trial.Tells.only l).inBounds }

/-- The repetition stops, after rounds each of which used up a token. -/
def Stops {α : Type} (item : Descent α) (depth : Nat) (ts : List Token) (i : Nat) : Prop :=
  ∃ xs j, many item depth ts i = .found xs j ∧ i + xs.length ≤ j ∧ j ≤ ts.length

theorem TellsFrom.stops {α : Type} {R : Reading α} {item : Descent α}
    (h : item.TellsFrom R ts i) (hi : i ≤ ts.length) (hdepth : ts.length - i < depth) :
    Stops item depth ts i := by
  obtain ⟨xs, j, hmany, hj, hlength, -⟩ := many_stops h hi hdepth
  exact ⟨xs, j, hmany, hj, hlength⟩

end Descent

/-! ### Whole forms -/

/-- What becomes of a whole form, by what is read at its first place. -/
inductive FormEnds (ts : List Token) : Except Error Expr → Prop
  | ok {e : Expr} : expressionAt ts 0 = some (e, ts.length) → FormEnds ts (.ok e)
  | unparsable : expressionAt ts 0 = none → FormEnds ts (.error .unparsable)
  | trailing {e : Expr} {k : Nat} {t : Token} : expressionAt ts 0 = some (e, k) → ts[k]? = some t →
      FormEnds ts (.error (.trailing t.text))

section
variable {ts : List Token} {e : Expr} {j : Nat}

theorem takeExpr?_of_read (h : expressionAt ts 0 = some (e, j)) :
    takeExpr? (ts.map Token.lexeme) = some (e, Token.lexemesFrom ts j) := by
  obtain ⟨-, -, hexpr⟩ := expressionAt_eq_some_iff.1 h
  exact takeExpr?_eq_some_iff.2 hexpr

/-- Where the expression does not use up the form, there is a token after it. -/
theorem formEnds_parse (ts : List Token) : FormEnds ts (parse (ts.map Token.lexeme)) := by
  cases hread : expressionAt ts 0 with
  | none =>
    have htake : takeExpr? (ts.map Token.lexeme) = none := Option.map_eq_none_iff.1 hread
    rw [parse, htake]
    exact .unparsable hread
  | some ej =>
    obtain ⟨e, j⟩ := ej
    obtain ⟨-, hlength, -⟩ := expressionAt_eq_some_iff.1 hread
    rw [parse, takeExpr?_of_read hread]
    obtain rfl | hlt := Nat.eq_or_lt_of_le hlength
    · rw [Token.lexemesFrom_of_le (Nat.le_refl _)]
      exact .ok hread
    · have ht := List.getElem?_eq_getElem hlt
      rw [Token.lexemesFrom_of_getElem? ht]
      exact .trailing hread ht

theorem Descent.form?_eq {depth : Nat} (hdepth : ts.length < depth) :
    form? depth ts = some (parse (ts.map Token.lexeme)) := by
  have hexpr : expression depth ts 0 = .ofRead (expressionAt ts 0) :=
    (expression_tells (by omega)).eq_ofRead fun _ _ => expressionAt_eq_some_iff
  have hends := formEnds_parse ts
  rw [form?, hexpr]
  generalize parse (ts.map Token.lexeme) = result at hends ⊢
  cases hends with
  | ok hread =>
    rw [hread]
    exact if_pos rfl
  | unparsable hread => rw [hread, Trial.ofRead]
  | trailing hread ht =>
    have hlt := (List.getElem?_eq_some_iff.1 ht).1
    rw [hread]
    dsimp only [Trial.ofRead]
    rw [if_neg (Nat.ne_of_lt hlt), ht, Option.map_some]

end

/-- Reading ends, whatever the tokens are and wherever it begins, be it beyond the last of them. To
a depth that exceeds the number of tokens left, the trial with every rule ends within the text,
and the repetitions stop; what is found is what is read at the place. A whole form is read as an
expression, or it is refused as such or for one of its tokens. -/
theorem descent_ends (ts : List Token) :
    (∀ i depth, ts.length - i < depth →
      Descent.InBounds depth ts i ∧
      Descent.expression depth ts i = .ofRead (expressionAt ts i) ∧
      Descent.plain (Descent.expression depth) (Descent.constant depth) depth ts i =
        .ofRead (valueAt ts i) ∧
      Descent.constant depth ts i = .ofRead (constantAt ts i) ∧
      (i ≤ ts.length →
        Descent.Stops (Descent.expression depth) depth ts i ∧
        Descent.Stops Descent.name depth ts i ∧
        Descent.Stops (Descent.constant depth) depth ts i)) ∧
    (∀ depth, ts.length < depth →
      Descent.form? depth ts = some (parse (ts.map Token.lexeme))) ∧
    FormEnds ts (parse (ts.map Token.lexeme)) := by
  refine ⟨fun i depth hdepth => ?_, fun depth => Descent.form?_eq, formEnds_parse ts⟩
  have hexpr : (Descent.expression depth).TellsFrom Expression ts i :=
    fun j hj _ => Descent.expression_tells (by omega)
  have hconst : (Descent.constant depth).TellsFrom Constant ts i :=
    fun j hj _ => Descent.constant_tells (by omega)
  have hvalue := Descent.plain_tells (hexpr.mono (Nat.le_succ i)) (hconst.mono (Nat.le_succ i))
    (Nat.le_of_lt hdepth)
  refine ⟨Descent.inBounds hdepth, ?_, ?_, ?_, fun hi => ⟨?_, ?_, ?_⟩⟩
  · exact (Descent.expression_tells hdepth).eq_ofRead fun _ _ => expressionAt_eq_some_iff
  · exact hvalue.eq_ofRead fun _ _ => valueAt_eq_some_iff
  · exact (Descent.constant_tells hdepth).eq_ofRead fun _ _ => constantAt_eq_some_iff
  · exact hexpr.stops hi hdepth
  · exact Descent.TellsFrom.stops (fun _ _ _ => Descent.name_tells) hi hdepth
  · exact hconst.stops hi hdepth

/-- The form `(f)` with a token left over, and a place beyond its end. -/
theorem descent_ends_trailing :
    ∃ ts : List Token, ts.map Token.lexeme = [.leftParen, .atom "f", .rightParen, .atom "x"] ∧
      Descent.InBounds 5 ts 0 ∧ Descent.InBounds 1 ts 9 ∧
      Descent.expression 5 ts 0 = .found (.call (.var "f") []) 3 ∧
      Descent.Stops (Descent.expression 5) 5 ts 1 ∧
      Descent.form? 5 ts = some (.error (.trailing "x")) := by
  let ts : List Token :=
    [⟨.leftParen, 1, 1⟩, ⟨.atom "f", 1, 2⟩, ⟨.rightParen, 1, 3⟩, ⟨.atom "x", 1, 5⟩]
  obtain ⟨hplaces, hform, -⟩ := descent_ends ts
  obtain ⟨hstart, hfound, -⟩ := hplaces 0 5 (by decide)
  obtain ⟨hbeyond, -⟩ := hplaces 9 1 (by decide)
  obtain ⟨-, -, -, -, hstops⟩ := hplaces 1 5 (by decide)
  exact ⟨ts, rfl, hstart, hbeyond, hfound, (hstops (by decide)).1, hform 5 (by decide)⟩

end PocketLisp
