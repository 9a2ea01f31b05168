import PocketLisp.Input.Form
import PocketLisp.Proofs.Grammar.Acceptance
import PocketLisp.Proofs.Input.Forms

/-!
# What is read has matching parentheses

Whatever is read at a place of a text ends where its own parentheses are closed, and nothing outside
of it decides what it is.

## Main definitions

- `Lexeme.Phrase` — lexemes whose parentheses match
- `TakesPhrases` — a function takes phrases, whatever follows them
- `Token.between` — the tokens from one place up to another
- `ReadAlike` — what is read at a place is read wherever the same lexemes stand
- `LoneQuote` — a quote mark that is read as a variable

## Main statements

- `Tree.phrase_lexemes` — the lexemes of a piece are a phrase
- `takesPhrases_expr` — what follows an expression does not change it
- `readings_matched_and_local` — so for expressions, values and constants at every place

## Design notes

A quote mark is a variable only where no constant follows. It is the one expression that depends on
the lexemes after it, and inside a group there are none: it stands before the closing parenthesis.
-/

namespace PocketLisp

/-! ### Lexemes with matching parentheses -/

namespace Lexeme

variable {l : Lexeme} {ls ms : List Lexeme}

/-- No prefix closes a parenthesis that it does not open. -/
def NeverNegative (ls : List Lexeme) : Prop := ∀ n, 0 ≤ balance (ls.take n)

theorem neverNegative_nil : NeverNegative [] := fun n => by simp

theorem NeverNegative.cons (hl : 0 ≤ l.nesting) (h : NeverNegative ls) :
    NeverNegative (l :: ls) := by
  intro n
  cases n with
  | zero => simp
  | succ n =>
    have := h n
    rw [List.take_succ_cons, balance_cons]
    omega

theorem NeverNegative.append (hls : NeverNegative ls) (hms : NeverNegative ms) :
    NeverNegative (ls ++ ms) := by
  intro n
  rw [List.take_append, balance_append]
  by_cases hn : n ≤ ls.length
  · have := hls n
    rw [Nat.sub_eq_zero_of_le hn, List.take_zero, balance_nil]
    omega
  · have hall := hls ls.length
    rw [List.take_length] at hall
    have := hms (n - ls.length)
    rw [List.take_of_length_le (by omega)]
    omega

/-- Lexemes whose parentheses match, with no line end among them. If they begin with a parenthesis
then it is the last one that closes it. -/
structure Phrase (ls : List Lexeme) : Prop where
  neverNegative : NeverNegative ls
  closed : balance ls = 0
  newline : .newline ∉ ls
  closedLast : ls.head? = some .leftParen →
    ∀ n, 0 < n → n < ls.length → 0 < balance (ls.take n)

/-- A quote mark before a phrase changes none of its parentheses. -/
theorem Phrase.quote (h : Phrase ls) : Phrase (.quote :: ls) where
  neverNegative := h.neverNegative.cons (Int.le_refl 0)
  closed := by simp [nesting, h.closed]
  newline := by simp [h.newline]
  closedLast hhead := by cases hhead

end Lexeme

/-! ### The lexemes of a piece -/

namespace Tree

variable {t : Tree} {items : List Tree}

theorem nesting_of_balanced {l : Lexeme} (h : (leaf l).Balanced) : l.nesting = 0 := by
  obtain ⟨hleft, hright⟩ := h
  cases l with
  | leftParen => exact absurd rfl hleft
  | rightParen => exact absurd rfl hright
  | _ => rfl

mutual

theorem balance_lexemes : ∀ t : Tree, t.Balanced → Lexeme.balance t.lexemes = 0
  | leaf l, h => by simp [lexemes, nesting_of_balanced h]
  | group items, h => by simp [lexemes, balance_allLexemes items h, Lexeme.nesting]

theorem balance_allLexemes :
    ∀ ts : List Tree, AllBalanced ts → Lexeme.balance (allLexemes ts) = 0
  | [], _ => rfl
  | t :: ts, h => by
    rw [allLexemes, Lexeme.balance_append, balance_lexemes t h.1, balance_allLexemes ts h.2,
      Int.add_zero]

end

/-- Between its two parentheses a group stays open. -/
theorem balance_take_group (hitems : Lexeme.NeverNegative (allLexemes items)) {n : Nat}
    (hn : 0 < n) (hlt : n < (group items).lexemes.length) :
    0 < Lexeme.balance ((group items).lexemes.take n) := by
  obtain ⟨m, rfl⟩ := Nat.exists_eq_add_of_lt hn
  have hm : m ≤ (allLexemes items).length := by
    simp only [lexemes, List.length_cons, List.length_append, List.length_nil] at hlt
    omega
  have hinside := hitems m
  rw [lexemes, Nat.zero_add, List.take_succ_cons, List.take_append_of_le_length hm,
    Lexeme.balance_cons, Lexeme.nesting]
  omega

mutual

theorem neverNegative_lexemes : ∀ t : Tree, t.Balanced → Lexeme.NeverNegative t.lexemes
  | leaf l, h => Lexeme.neverNegative_nil.cons (Int.le_of_eq (nesting_of_balanced h).symm)
  | group items, h => by
    intro n
    have hitems := neverNegative_allLexemes items h
    rcases Nat.eq_zero_or_pos n with rfl | hpos
    · simp
    · by_cases hlt : n < (group items).lexemes.length
      · exact Int.le_of_lt (balance_take_group hitems hpos hlt)
      · rw [List.take_of_length_le (by omega)]
        exact Int.le_of_eq (balance_lexemes (group items) h).symm

theorem neverNegative_allLexemes :
    ∀ ts : List Tree, AllBalanced ts → Lexeme.NeverNegative (allLexemes ts)
  | [], _ => Lexeme.neverNegative_nil
  | t :: ts, h => (neverNegative_lexemes t h.1).append (neverNegative_allLexemes ts h.2)

end

mutual

/-- A line end has no meaning, in a group as little as by itself. -/
theorem newline_notMem_lexemes :
    ∀ t : Tree, t.Balanced → t.constant?.isSome → .newline ∉ t.lexemes
  | leaf l, _, hv => by
    rintro (_ | ⟨_, hmem⟩)
    · cases hv
    · cases hmem
  | group items, h, hv => by
    rw [constant?, Option.isSome_map] at hv
    simp [lexemes, newline_notMem_allLexemes items h hv]

theorem newline_notMem_allLexemes :
    ∀ ts : List Tree, AllBalanced ts → (constants? ts).isSome → .newline ∉ allLexemes ts
  | [], _, _ => by simp [allLexemes]
  | t :: ts, h, hv => by
    obtain ⟨ht, hts⟩ := constants?_isSome_cons.1 hv
    rw [allLexemes, List.mem_append, not_or]
    exact ⟨newline_notMem_lexemes t h.1 ht, newline_notMem_allLexemes ts h.2 hts⟩

end

/-- The lexemes of a piece that has a meaning are a phrase. -/
theorem phrase_lexemes (ht : t.Balanced) (hv : t.constant?.isSome) : Lexeme.Phrase t.lexemes where
  neverNegative := neverNegative_lexemes t ht
  closed := balance_lexemes t ht
  newline := newline_notMem_lexemes t ht hv
  closedLast hhead n hn hlt := by
    cases t with
    | leaf l =>
      cases hhead
      exact absurd rfl ht.1
    | group items => exact balance_take_group (neverNegative_allLexemes items ht) hn hlt

theorem lexemes_ne_nil (t : Tree) : t.lexemes ≠ [] := by
  cases t with
  | leaf l => exact List.cons_ne_nil _ _
  | group items => exact List.cons_ne_nil _ _

end Tree

/-! ### Taking a phrase from the front of a text -/

/-- What a function takes from the front of a text is a phrase. Unless `except` holds, what follows
the phrase does not matter. -/
def TakesPhrases {α : Type} (take? : List Lexeme → Option (α × List Lexeme))
    (except : List Lexeme → α → Prop) : Prop :=
  ∀ ⦃ls x rest⦄, take? ls = some (x, rest) →
    ∃ phrase, ls = phrase ++ rest ∧ phrase ≠ [] ∧ Lexeme.Phrase phrase ∧
      (¬ except ls x → ∀ after, take? (phrase ++ after) = some (x, after))

/-- What follows a constant does not change it. -/
theorem takesPhrases_constant : TakesPhrases takeConstant? fun _ _ => False := by
  intro ls v rest h
  obtain ⟨t, hbal, rfl, hv⟩ := (takeConstant?_eq_some_iff.1 h).exists_tree
  have hphrase := t.phrase_lexemes hbal (by simp [hv])
  refine ⟨t.lexemes, rfl, t.lexemes_ne_nil, hphrase, fun _ after => ?_⟩
  exact takeConstant?_eq_some_iff.2 (Grammar.constant_of_constant? after t v hv)

/-- What follows an expression does not change it, unless it is a quote mark that is read as a
variable. -/
theorem takesPhrases_expr :
    TakesPhrases takeExpr? fun ls e => ls.head? = some .quote ∧ e = .var "'" := by
  intro ls e rest h
  by_cases hquote : ∃ ls', ls = .quote :: ls'
  · obtain ⟨ls', rfl⟩ := hquote
    rcases Grammar.taken_quote_iff.1 h with ⟨v, hv, rfl⟩ | ⟨-, rfl, rfl⟩
    · obtain ⟨phrase, rfl, -, hphrase, htakes⟩ :=
        takesPhrases_constant (takeConstant?_eq_some_iff.2 hv)
      refine ⟨.quote :: phrase, rfl, List.cons_ne_nil _ _, hphrase.quote, fun _ after => ?_⟩
      exact Grammar.taken_quote_iff.2 (.inl ⟨v, takeConstant?_eq_some_iff.1 (htakes id after), rfl⟩)
    · refine ⟨[.quote], rfl, List.cons_ne_nil _ _, ?_, fun hlone => absurd ⟨rfl, rfl⟩ hlone⟩
      exact Tree.phrase_lexemes (t := .leaf .quote) ⟨nofun, nofun⟩ rfl
  · obtain ⟨t, hbal, rfl, he⟩ :=
      (Grammar.taken_iff_of_ne_quote fun ls' heq => hquote ⟨ls', heq⟩).1 h
    have hne : t ≠ .leaf .quote := by
      rintro rfl
      exact hquote ⟨rest, rfl⟩
    have hphrase := t.phrase_lexemes hbal (Tree.constant?_isSome_of_expr? t e he)
    refine ⟨t.lexemes, rfl, t.lexemes_ne_nil, hphrase, fun _ after => ?_⟩
    exact (Grammar.taken_iff_of_ne_quote (Tree.lexemes_append_ne_quote hne after)).2
      ⟨t, hbal, rfl, he⟩

/-- What follows a number, quoted constant or `lambda` does not change it. -/
theorem takesPhrases_valueExpr : TakesPhrases takeValueExpr? fun _ _ => False := by
  intro ls e rest h
  obtain ⟨htake, hvalue⟩ := Option.filter_eq_some_iff.1 h
  obtain ⟨phrase, rfl, hne, hphrase, htakes⟩ := takesPhrases_expr htake
  refine ⟨phrase, rfl, hne, hphrase, fun _ after => Option.filter_eq_some_iff.2 ⟨?_, hvalue⟩⟩
  refine htakes ?_ after
  rintro ⟨-, rfl⟩
  cases hvalue

/-! ### Reading at a place of a text -/

/-- The tokens from place `i` up to place `j`. -/
def Token.between (ts : List Token) (i j : Nat) : List Token := (ts.drop i).take (j - i)

theorem Token.map_between (ts : List Token) (i j : Nat) :
    (between ts i j).map lexeme = ((ts.map lexeme).drop i).take (j - i) := by
  rw [between, List.map_take, List.map_drop]

/-- The tokens from one place up to another are a phrase. -/
structure Token.PhraseBetween (ts : List Token) (i j : Nat) : Prop where
  lt : i < j
  le : j ≤ ts.length
  phrase : Lexeme.Phrase ((between ts i j).map lexeme)

/-- What is read at a place is read wherever the same lexemes stand, and ends with them. -/
def ReadAlike {α : Type} (read : List Token → Nat → Option (α × Nat)) (ts : List Token) (i : Nat)
    (x : α) (j : Nat) : Prop :=
  ∀ ts' k,
    (Token.between ts' k (k + (j - i))).map Token.lexeme = (Token.between ts i j).map Token.lexeme →
      read ts' k = some (x, k + (j - i))

section
variable {α : Type} {take? : List Lexeme → Option (α × List Lexeme)}
  {except : List Lexeme → α → Prop} {ts : List Token} {i j : Nat} {x : α}

theorem exists_phrase_of_readAt (htake : TakesPhrases take? except)
    (h : readAt take? ts i = some (x, j)) :
    Token.PhraseBetween ts i j ∧ (¬ except ((ts.map Token.lexeme).drop i) x →
      ∀ after, take? ((Token.between ts i j).map Token.lexeme ++ after) = some (x, after)) := by
  obtain ⟨⟨y, rest⟩, hy, heq⟩ := Option.map_eq_some_iff.1 h
  cases heq
  obtain ⟨phrase, hcut, hne, hphrase, hlocal⟩ := htake hy
  have hpos := List.length_pos_iff.2 hne
  have hlength := congrArg List.length hcut
  rw [List.length_drop, List.length_map, List.length_append] at hlength
  have hbetween : (Token.between ts i (ts.length - rest.length)).map Token.lexeme = phrase := by
    rw [Token.map_between, hcut]
    exact List.take_left' (by omega)
  rw [hbetween]
  exact ⟨⟨by omega, by omega, by rwa [hbetween]⟩, hlocal⟩

theorem readAlike_of_takes (hj : Token.PhraseBetween ts i j)
    (h : ∀ after, take? ((Token.between ts i j).map Token.lexeme ++ after) = some (x, after)) :
    ReadAlike (readAt take?) ts i x j := by
  intro ts' k hsame
  have hlength := congrArg List.length hsame
  rw [Token.map_between, Nat.add_sub_cancel_left] at hsame
  have hcut := List.take_append_drop (j - i) ((ts'.map Token.lexeme).drop k)
  rw [hsame] at hcut
  -- The other text is long enough to hold the phrase from place `k` on.
  simp only [Token.between, List.length_map, List.length_take, List.length_drop] at hlength
  have hfits : k + (j - i) ≤ ts'.length := by
    have := hj.lt
    have := hj.le
    omega
  rw [readAt, ← hcut, h]
  simp only [List.drop_drop, List.length_drop, List.length_map, Option.map_some, Option.some.injEq,
    Prod.mk.injEq, true_and]
  omega

end

/-- A quote mark at place `i` is read as a variable. -/
def LoneQuote (ts : List Token) (i : Nat) (e : Expr) : Prop :=
  ts[i]?.map Token.lexeme = some .quote ∧ e = .var "'"

/-- What is read at a place has matching parentheses, and is read likewise wherever the same lexemes
stand, unless it is a quote mark that is read as a variable. So the parentheses of a form that is
read as an expression match. -/
theorem readings_matched_and_local (ts : List Token) (i : Nat) :
    (∀ e j, expressionAt ts i = some (e, j) →
      Token.PhraseBetween ts i j ∧ (¬ LoneQuote ts i e → ReadAlike expressionAt ts i e j)) ∧
    (∀ e j, valueAt ts i = some (e, j) → Token.PhraseBetween ts i j ∧ ReadAlike valueAt ts i e j) ∧
    (∀ v j, constantAt ts i = some (v, j) →
      Token.PhraseBetween ts i j ∧ ReadAlike constantAt ts i v j) ∧
    (∀ e, parse (ts.map Token.lexeme) = .ok e →
      Token.balance ts = 0 ∧ ∀ n, 0 ≤ Token.balance (ts.take n)) := by
  refine ⟨fun e j h => ?_, fun e j h => ?_, fun v j h => ?_, fun e h => ?_⟩
  · obtain ⟨hphrase, hlocal⟩ := exists_phrase_of_readAt takesPhrases_expr h
    refine ⟨hphrase, fun hlone => readAlike_of_takes hphrase (hlocal ?_)⟩
    rwa [List.head?_drop, List.getElem?_map]
  · obtain ⟨hphrase, hlocal⟩ := exists_phrase_of_readAt takesPhrases_valueExpr h
    exact ⟨hphrase, readAlike_of_takes hphrase (hlocal id)⟩
  · obtain ⟨hphrase, hlocal⟩ := exists_phrase_of_readAt takesPhrases_constant h
    exact ⟨hphrase, readAlike_of_takes hphrase (hlocal id)⟩
  · obtain ⟨phrase, hcut, -, hphrase, -⟩ :=
      takesPhrases_expr (takeExpr?_eq_some_iff.2 (parse_eq_ok_iff.1 h))
    rw [List.append_nil] at hcut
    subst hcut
    refine ⟨by rw [Token.balance_eq, hphrase.closed], fun n => ?_⟩
    rw [Token.balance_eq, List.map_take]
    exact hphrase.neverNegative n

/-- The quoted list inside of `(f '(a))`. -/
theorem readings_matched_and_local_quoted :
    ∃ ts, ts.map Token.lexeme = [.leftParen, .atom "f", .quote, .leftParen, .atom "a", .rightParen,
        .rightParen] ∧
      expressionAt ts 2 = some (.literal (.pair (.symbol "a") .nil), 6) ∧
      Token.PhraseBetween ts 2 6 ∧
      ReadAlike expressionAt ts 2 (.literal (.pair (.symbol "a") .nil)) 6 ∧
      Token.balance ts = 0 := by
  let ts : List Token := [⟨.leftParen, 1, 1⟩, ⟨.atom "f", 1, 2⟩, ⟨.quote, 1, 4⟩, ⟨.leftParen, 1, 5⟩,
    ⟨.atom "a", 1, 6⟩, ⟨.rightParen, 1, 7⟩, ⟨.rightParen, 1, 8⟩]
  have hread : expressionAt ts 2 = some (.literal (.pair (.symbol "a") .nil), 6) := rfl
  have hform : parse (ts.map Token.lexeme) =
      .ok (.call (.var "f") [.literal (.pair (.symbol "a") .nil)]) := rfl
  obtain ⟨hexpression, -, -, hforms⟩ := readings_matched_and_local ts 2
  obtain ⟨hphrase, halike⟩ := hexpression _ _ hread
  refine ⟨ts, rfl, hread, hphrase, halike ?_, (hforms _ hform).1⟩
  rintro ⟨-, hvar⟩
  cases hvar

/-- What follows a quote mark decides whether it is a variable. -/
example : takeExpr? [.quote] = some (.var "'", []) ∧
    takeExpr? [.quote, .atom "a"] = some (.literal (.symbol "a"), []) := ⟨rfl, rfl⟩

end PocketLisp
