import PocketLisp.Proofs.Grammar.Rules

/-!
# Balanced pieces and the grammar of constants

Taking a piece from the front of a text is deterministic and undoes writing it, so a rule that reads
a text can be compared with a function that looks at a piece.

## Main definitions

- `Tree.Balanced` — no leaf is a parenthesis
- `Tree.Encloses` — the pieces up to a closing parenthesis

## Main statements

- `Tree.take?_eq_some_iff` — a piece is taken exactly where it stands
- `Tree.Encloses.unique` — a text has one list of pieces up to the closing parenthesis
- `takeConstant?_eq_some_iff` — the constants taken are those of the grammar
-/

namespace PocketLisp

namespace Tree

/-! ### Pieces without stray parentheses -/

mutual

/-- No leaf is a parenthesis. -/
def Balanced : Tree → Prop
  | leaf l => l ≠ .leftParen ∧ l ≠ .rightParen
  | group items => AllBalanced items

/-- No leaf of several pieces is a parenthesis. -/
def AllBalanced : List Tree → Prop
  | [] => True
  | t :: ts => t.Balanced ∧ AllBalanced ts

end

variable {t u : Tree} {ts us : List Tree} {ls ls' rest rest' : List Lexeme}

theorem allBalanced_append : AllBalanced (ts ++ us) ↔ AllBalanced ts ∧ AllBalanced us := by
  induction ts with
  | nil => simp [AllBalanced]
  | cons t ts ih => simp [AllBalanced, ih, and_assoc]

theorem allBalanced_reverse : AllBalanced ts.reverse ↔ AllBalanced ts := by
  induction ts with
  | nil => rfl
  | cons t ts ih => simp [AllBalanced, allBalanced_append, ih, and_comm]

theorem takeInside_leaf {l : Lexeme} (hl : (leaf l).Balanced) (items : List Tree)
    (enclosing : List (List Tree)) :
    takeInside (items :: enclosing) (l :: ls) =
      takeInside ((leaf l :: items) :: enclosing) ls := by
  obtain ⟨hleft, hright⟩ := hl
  cases l with
  | leftParen => exact absurd rfl hleft
  | rightParen => exact absurd rfl hright
  | newline => simp [takeInside]
  | quote => simp [takeInside]
  | atom text => simp [takeInside]

mutual

/-- Inside a group, reading the lexemes of a piece adds the piece to the group. -/
theorem takeInside_lexemes (ls : List Lexeme) (items : List Tree)
    (enclosing : List (List Tree)) :
    ∀ t : Tree, t.Balanced →
      takeInside (items :: enclosing) (t.lexemes ++ ls) =
        takeInside ((t :: items) :: enclosing) ls
  | leaf l, h => takeInside_leaf h items enclosing
  | group ts, h => by
    rw [lexemes, List.cons_append, List.append_assoc, takeInside]
    rw [takeInside_allLexemes _ _ _ ts h]
    simp [takeInside]

/-- Inside a group, reading the lexemes of several pieces adds the pieces to the group. -/
theorem takeInside_allLexemes (ls : List Lexeme) (items : List Tree)
    (enclosing : List (List Tree)) :
    ∀ ts : List Tree, AllBalanced ts →
      takeInside (items :: enclosing) (allLexemes ts ++ ls) =
        takeInside ((ts.reverse ++ items) :: enclosing) ls
  | [], _ => rfl
  | t :: ts, h => by
    rw [allLexemes, List.append_assoc, takeInside_lexemes _ _ _ t h.1,
      takeInside_allLexemes _ _ _ ts h.2]
    simp

end

/-- Taking a piece undoes writing it. -/
theorem take?_lexemes (h : t.Balanced) : take? (t.lexemes ++ rest) = some (t, rest) := by
  cases t with
  | leaf l =>
    obtain ⟨hleft, hright⟩ := h
    cases l <;> simp_all [take?, takeInside, lexemes]
  | group items =>
    rw [take?, lexemes, List.cons_append, List.append_assoc, takeInside]
    rw [takeInside_allLexemes _ _ _ items h]
    simp [takeInside]

theorem balanced_of_takeInside {enclosing : List (List Tree)}
    (hopen : ∀ items ∈ enclosing, AllBalanced items)
    (h : takeInside enclosing ls = some (t, rest)) : t.Balanced := by
  fun_induction takeInside enclosing ls with
  | case1 => cases h
  | case2 _ _ ih => exact ih (by simpa [AllBalanced] using hopen) h
  | case3 => cases h
  | case4 items => cases h; simpa [Balanced, allBalanced_reverse] using hopen
  | case5 items outer _ _ ih =>
    refine ih ?_ h
    simpa [AllBalanced, Balanced, allBalanced_reverse, and_assoc] using hopen
  | case6 l _ hleft hright =>
    cases h
    exact ⟨hleft, hright⟩
  | case7 items enclosing l _ hleft hright _ ih =>
    refine ih ?_ h
    have hl : l ≠ .rightParen := by
      rintro rfl
      cases enclosing with
      | nil => exact hright rfl rfl
      | cons outer enclosing => simp_all
    simp_all [AllBalanced, Balanced]

/-- A piece is taken exactly where it stands. -/
theorem take?_eq_some_iff : take? ls = some (t, rest) ↔ t.Balanced ∧ ls = t.lexemes ++ rest := by
  constructor
  · intro h
    exact ⟨balanced_of_takeInside (by simp) h, (lexemes_append_of_take? h).symm⟩
  · rintro ⟨hbal, rfl⟩
    exact take?_lexemes hbal

/-! ### Pieces up to a closing parenthesis -/

/-- A text begins with pieces and a closing parenthesis, and the rest follows. -/
def Encloses (ls : List Lexeme) (items : List Tree) (rest : List Lexeme) : Prop :=
  AllBalanced items ∧ ls = allLexemes items ++ .rightParen :: rest

theorem encloses_nil : Encloses (.rightParen :: rest) [] rest := ⟨trivial, rfl⟩

theorem Encloses.cons (ht : t.Balanced) (h : Encloses ls ts rest) :
    Encloses (t.lexemes ++ ls) (t :: ts) rest := by
  obtain ⟨hts, rfl⟩ := h
  exact ⟨⟨ht, hts⟩, by rw [allLexemes, List.append_assoc]⟩

theorem take?_group_iff :
    take? (.leftParen :: ls) = some (t, rest) ↔
      ∃ items, t = group items ∧ Encloses ls items rest := by
  rw [take?_eq_some_iff]
  constructor
  · rintro ⟨hbal, heq⟩
    cases t with
    | leaf l => cases heq; exact absurd rfl hbal.1
    | group items => exact ⟨items, rfl, hbal, by simpa [lexemes] using heq⟩
  · rintro ⟨items, rfl, hbal, rfl⟩
    exact ⟨hbal, by simp [lexemes]⟩

/-- A text has one list of pieces up to the closing parenthesis. -/
theorem Encloses.unique (h : Encloses ls ts rest) (h' : Encloses ls us rest') :
    ts = us ∧ rest = rest' := by
  have ht := take?_group_iff.2 ⟨ts, rfl, h⟩
  have hu := take?_group_iff.2 ⟨us, rfl, h'⟩
  rw [ht] at hu
  simpa using hu

end Tree

/-! ### Numbers, names and constants -/

namespace Grammar

variable {l : Lexeme} {ls rest : List Lexeme}

theorem number_cons_iff {n : Word} :
    Number (l :: ls) n rest ↔ l.number? = some n ∧ ls = rest := by
  constructor
  · rintro ⟨hdenotes, -, rfl⟩
    exact ⟨Numeral.read?_eq_some_iff.2 hdenotes, rfl⟩
  · rintro ⟨h, rfl⟩
    cases l with
    | atom text => exact .of_read? h
    | _ => cases h

theorem name_cons_iff {x : String} : Name (l :: ls) x rest ↔ l.name? = some x ∧ ls = rest := by
  constructor
  · rintro (_ | ⟨hne, hdenotes, hsolid⟩)
    · exact ⟨rfl, rfl⟩
    · have hname : isName x = true := isName_iff.2 ⟨hne, hdenotes, hsolid⟩
      simp [Lexeme.name?, hname]
  · rintro ⟨h, rfl⟩
    cases l with
    | quote => cases h; exact .quote
    | atom text =>
      simp only [Lexeme.name?, Option.ite_none_right_eq_some, Option.some.injEq] at h
      obtain ⟨hname, rfl⟩ := h
      exact .of_isName hname
    | _ => cases h

theorem number_ne_nil {n : Word} : ¬ Number [] n rest := nofun

theorem name_ne_nil {x : String} : ¬ Name [] x rest := nofun

/-- No lexeme is both a number and a name. -/
theorem name?_eq_none_of_number? {n : Word} (h : l.number? = some n) : l.name? = none := by
  cases l with
  | atom text =>
    simp only [Lexeme.number?, Numeral.read?, Option.ite_none_right_eq_some] at h
    simp [Lexeme.name?, isName_eq_false_of_isNumeral h.1]
  | _ => cases h

theorem balanced_of_number? {n : Word} (h : l.number? = some n) : (Tree.leaf l).Balanced := by
  constructor <;> rintro rfl <;> cases h

theorem balanced_of_name? {x : String} (h : l.name? = some x) : (Tree.leaf l).Balanced := by
  constructor <;> rintro rfl <;> cases h

/-- The constant of a lexeme is its number, or else the symbol of its name. -/
theorem constant?_eq_some_iff {v : Value} :
    l.constant? = some v ↔
      (∃ n, l.number? = some n ∧ v = .number n) ∨ ∃ x, l.name? = some x ∧ v = .symbol x := by
  unfold Lexeme.constant?
  cases hn : l.number? with
  | none => simp [Option.map_eq_some_iff, @eq_comm _ v]
  | some n => simp [name?_eq_none_of_number? hn, @eq_comm _ v]

/-- The expression of a lexeme is its number, or else the variable of its name. -/
theorem expr?_eq_some_iff {e : Expr} :
    l.expr? = some e ↔
      (∃ n, l.number? = some n ∧ e = .literal (.number n)) ∨
        ∃ x, l.name? = some x ∧ e = .var x := by
  unfold Lexeme.expr?
  cases hn : l.number? with
  | none => simp [Option.map_eq_some_iff, @eq_comm _ e]
  | some n => simp [name?_eq_none_of_number? hn, @eq_comm _ e]

mutual

/-- What a piece denotes, the grammar derives from its lexemes. -/
theorem constant_of_constant? (rest : List Lexeme) :
    ∀ (t : Tree) (v : Value), t.constant? = some v → Constant (t.lexemes ++ rest) v rest
  | .leaf l, v, h => by
    rcases constant?_eq_some_iff.1 h with ⟨n, hn, rfl⟩ | ⟨x, hx, rfl⟩
    · exact .number (number_cons_iff.2 ⟨hn, rfl⟩)
    · exact .symbol (name_cons_iff.2 ⟨hx, rfl⟩)
  | .group items, v, h => by
    obtain ⟨vs, hvs, rfl⟩ := Option.map_eq_some_iff.1 h
    have hitems := constants_of_constants? (.rightParen :: rest) items vs hvs
    simpa [Tree.lexemes] using Constant.list hitems

/-- What several pieces denote, the grammar derives from their lexemes. -/
theorem constants_of_constants? (rest : List Lexeme) :
    ∀ (ts : List Tree) (vs : List Value), Tree.constants? ts = some vs →
      Constants (Tree.allLexemes ts ++ rest) vs rest
  | [], vs, h => by cases h; exact .nil
  | t :: ts, vs, h => by
    simp only [Tree.constants?] at h
    split at h
    · cases h
    · next v hv =>
      obtain ⟨vs', hvs, rfl⟩ := Option.map_eq_some_iff.1 h
      have hhead := constant_of_constant? (Tree.allLexemes ts ++ rest) t v hv
      rw [Tree.allLexemes, List.append_assoc]
      exact .cons hhead (constants_of_constants? rest ts vs' hvs)

end

mutual

/-- What the grammar derives as a constant is a piece that denotes it. -/
theorem Constant.exists_tree :
    ∀ {ls : List Lexeme} {v : Value} {rest : List Lexeme}, Constant ls v rest →
      ∃ t : Tree, t.Balanced ∧ ls = t.lexemes ++ rest ∧ t.constant? = some v
  | [], _, _, .number h => absurd h number_ne_nil
  | [], _, _, .symbol h => absurd h name_ne_nil
  | l :: ls, _, _, .number h => by
    obtain ⟨hn, rfl⟩ := number_cons_iff.1 h
    exact ⟨.leaf l, balanced_of_number? hn, rfl, constant?_eq_some_iff.2 (.inl ⟨_, hn, rfl⟩)⟩
  | l :: ls, _, _, .symbol h => by
    obtain ⟨hx, rfl⟩ := name_cons_iff.1 h
    exact ⟨.leaf l, balanced_of_name? hx, rfl, constant?_eq_some_iff.2 (.inr ⟨_, hx, rfl⟩)⟩
  | _, _, _, .list h => by
    obtain ⟨ts, hbal, rfl, hvs⟩ := Constants.exists_trees h
    exact ⟨.group ts, hbal, by simp [Tree.lexemes], by simp [Tree.constant?, hvs]⟩

/-- What the grammar derives as constants are pieces that denote them. -/
theorem Constants.exists_trees :
    ∀ {ls : List Lexeme} {vs : List Value} {rest : List Lexeme}, Constants ls vs rest →
      ∃ ts : List Tree, Tree.AllBalanced ts ∧ ls = Tree.allLexemes ts ++ rest ∧
        Tree.constants? ts = some vs
  | _, _, _, .nil => ⟨[], trivial, rfl, rfl⟩
  | _, _, _, .cons h hs => by
    obtain ⟨t, hbal, rfl, hv⟩ := h.exists_tree
    obtain ⟨ts, hbals, rfl, hvs⟩ := hs.exists_trees
    exact ⟨t :: ts, ⟨hbal, hbals⟩, by simp [Tree.allLexemes], by simp [Tree.constants?, hv, hvs]⟩

end

end Grammar

/-- The constants taken are those of the grammar. -/
theorem takeConstant?_eq_some_iff {ls rest : List Lexeme} {v : Value} :
    takeConstant? ls = some (v, rest) ↔ Grammar.Constant ls v rest := by
  constructor
  · intro h
    unfold takeConstant? at h
    split at h
    · cases h
    · next t rest' htake =>
      obtain ⟨v', hv, heq⟩ := Option.map_eq_some_iff.1 h
      cases heq
      obtain ⟨-, rfl⟩ := Tree.take?_eq_some_iff.1 htake
      exact Grammar.constant_of_constant? _ t _ hv
  · intro h
    obtain ⟨t, hbal, rfl, hv⟩ := h.exists_tree
    simp [takeConstant?, Tree.take?_lexemes hbal, hv]

end PocketLisp
