import PocketLisp.Proofs.Grammar.Acceptance

/-!
# Numerals are numbers or nothing

A word of the shape of an integer is read as the integer that it denotes, wherever an expression or
a constant is read. If that lies outside the 64-bit range then the word is read as nothing at all,
and no form that holds it is an expression.

## Main definitions

- `Lexeme.Meant` — a parenthesis, a number or a name

## Main statements

- `readAt_atom` — what is read at a place where an atom stands
- `Tree.meant_of_constant?` — a piece that has a meaning is made of numbers and names
- `numerals_denote_or_reject` — numerals at all places of all texts, and in forms
-/

namespace PocketLisp

/-! ### Atoms at a place of a text -/

section
variable {text : String} {n : Int} {ts : List Token} {i : Nat} {t : Token}

/-- An atom is read as what it denotes, and nothing after it belongs to it. -/
theorem takeExpr?_atom (text : String) (rest : List Lexeme) :
    takeExpr? (.atom text :: rest) = (Lexeme.atom text).expr?.map (·, rest) := rfl

theorem takeConstant?_atom (text : String) (rest : List Lexeme) :
    takeConstant? (.atom text :: rest) = (Lexeme.atom text).constant?.map (·, rest) := rfl

theorem takeValueExpr?_atom (text : String) (rest : List Lexeme) :
    takeValueExpr? (.atom text :: rest) =
      ((Lexeme.atom text).expr?.filter Expr.isValue).map (·, rest) := by
  rw [takeValueExpr?, takeExpr?_atom]
  cases (Lexeme.atom text).expr? with
  | none => rfl
  | some e => cases hvalue : e.isValue <;> simp [Option.filter_some, hvalue]

/-- What is read at a place where an atom stands is what the atom denotes, up to the next place. -/
theorem readAt_atom {α : Type} {take? : List Lexeme → Option (α × List Lexeme)} {x? : Option α}
    (htake : ∀ rest, take? (.atom text :: rest) = x?.map (·, rest)) (ht : ts[i]? = some t)
    (hatom : t.lexeme = .atom text) : readAt take? ts i = x?.map (·, i + 1) := by
  obtain ⟨hi, rfl⟩ := List.getElem?_eq_some_iff.1 ht
  have hdrop : (ts.map Token.lexeme).drop i =
      .atom text :: (ts.map Token.lexeme).drop (i + 1) := by
    rw [List.drop_eq_getElem_cons (by simpa using hi), List.getElem_map, hatom]
  have hplace : ts.length - ((ts.map Token.lexeme).drop (i + 1)).length = i + 1 := by
    rw [List.length_drop, List.length_map]
    omega
  rw [readAt, hdrop, htake, Option.map_map]
  cases x? with
  | none => rfl
  | some x => exact congrArg (fun j => some (x, j)) hplace

/-- An atom is read as what it denotes, wherever an expression or a constant is read. -/
theorem read_atom (ht : ts[i]? = some t) (hatom : t.lexeme = .atom text) :
    expressionAt ts i = (Lexeme.atom text).expr?.map (·, i + 1) ∧
    valueAt ts i = ((Lexeme.atom text).expr?.filter Expr.isValue).map (·, i + 1) ∧
    constantAt ts i = (Lexeme.atom text).constant?.map (·, i + 1) :=
  ⟨readAt_atom (takeExpr?_atom text) ht hatom, readAt_atom (takeValueExpr?_atom text) ht hatom,
    readAt_atom (takeConstant?_atom text) ht hatom⟩

/-- A numeral in range is read as its number, wherever an expression or a constant is read. -/
theorem read_of_number? {w : Word} (hw : (Lexeme.atom text).number? = some w) (ht : ts[i]? = some t)
    (hatom : t.lexeme = .atom text) :
    expressionAt ts i = some (.literal (.number w), i + 1) ∧
    valueAt ts i = some (.literal (.number w), i + 1) ∧
    constantAt ts i = some (.number w, i + 1) := by
  have hexpr : (Lexeme.atom text).expr? = some (.literal (.number w)) :=
    Grammar.expr?_eq_some_iff.2 (.inl ⟨w, hw, rfl⟩)
  have hconstant : (Lexeme.atom text).constant? = some (.number w) :=
    Grammar.constant?_eq_some_iff.2 (.inl ⟨w, hw, rfl⟩)
  have hread := read_atom ht hatom
  rwa [hexpr, hconstant] at hread

/-- A numeral out of range is read as nothing. -/
theorem read_of_number?_eq_none (hshape : isNumeral text = true)
    (hw : (Lexeme.atom text).number? = none) (ht : ts[i]? = some t)
    (hatom : t.lexeme = .atom text) :
    expressionAt ts i = none ∧ valueAt ts i = none ∧ constantAt ts i = none := by
  have hname : (Lexeme.atom text).name? = none := by
    rw [Lexeme.name?, isName_eq_false_of_isNumeral hshape]
    rfl
  have hexpr : (Lexeme.atom text).expr? = none := by rw [Lexeme.expr?, hw, hname]; rfl
  have hconstant : (Lexeme.atom text).constant? = none := by rw [Lexeme.constant?, hw, hname]; rfl
  have hread := read_atom ht hatom
  rwa [hexpr, hconstant] at hread

end

/-! ### The words of a form -/

/-- A lexeme that may stand in a form that is read: a parenthesis, a number or a name. -/
def Lexeme.Meant (l : Lexeme) : Prop := l = .leftParen ∨ l = .rightParen ∨ l.constant?.isSome

namespace Tree

mutual

/-- A piece that has a meaning is made of parentheses, numbers and names. -/
theorem meant_of_constant? : ∀ t : Tree, t.constant?.isSome → ∀ l ∈ t.lexemes, l.Meant
  | leaf l, h => by
    intro l' hl'
    cases List.mem_singleton.1 hl'
    exact .inr (.inr h)
  | group items, h => by
    rw [constant?, Option.isSome_map] at h
    intro l hl
    rw [lexemes, List.mem_cons, List.mem_append, List.mem_singleton] at hl
    obtain rfl | hl | rfl := hl
    · exact .inl rfl
    · exact meant_of_constants? items h l hl
    · exact .inr (.inl rfl)

theorem meant_of_constants? :
    ∀ ts : List Tree, (constants? ts).isSome → ∀ l ∈ allLexemes ts, l.Meant
  | [], _ => nofun
  | t :: ts, h => by
    obtain ⟨ht, hts⟩ := constants?_isSome_cons.1 h
    intro l hl
    obtain hl | hl := List.mem_append.1 hl
    · exact meant_of_constant? t ht l hl
    · exact meant_of_constants? ts hts l hl

end

end Tree

/-- What is read as an expression is made of parentheses, numbers and names alone. -/
theorem meant_of_parse {ls : List Lexeme} {e : Expr} (h : parse ls = .ok e) :
    ∀ l ∈ ls, l.Meant := by
  have htaken : Grammar.Taken ls e [] := takeExpr?_eq_some_iff.2 (parse_eq_ok_iff.1 h)
  by_cases hquote : ∃ ls', ls = .quote :: ls'
  · -- The quote mark is a name, and what follows it is a constant or nothing.
    obtain ⟨ls', rfl⟩ := hquote
    refine List.forall_mem_cons.2 ⟨.inr (.inr rfl), ?_⟩
    obtain ⟨v, hconstant, -⟩ | ⟨-, -, rfl⟩ := Grammar.taken_quote_iff.1 htaken
    · obtain ⟨t, -, rfl, hv⟩ := hconstant.exists_tree
      rw [List.append_nil]
      exact t.meant_of_constant? (Option.isSome_of_eq_some hv)
    · exact nofun
  · obtain ⟨t, -, rfl, he⟩ :=
      (Grammar.taken_iff_of_ne_quote fun ls' heq => hquote ⟨ls', heq⟩).1 htaken
    rw [List.append_nil]
    exact t.meant_of_constant? (Tree.constant?_isSome_of_expr? t e he)

/-- An atom that may stand in a form is a numeral in range or a name. -/
theorem Lexeme.Meant.of_atom {text : String} (h : (Lexeme.atom text).Meant) :
    (∃ n, Numeral.Denotes text.toList n ∧ Word.InRange n) ∨ isName text = true := by
  obtain h | h | h := h
  · cases h
  · cases h
  · obtain ⟨v, hv⟩ := Option.isSome_iff_exists.1 h
    obtain ⟨w, hw, -⟩ | ⟨x, hx, -⟩ := Grammar.constant?_eq_some_iff.1 hv
    · exact .inl ⟨w.toInt, Numeral.read?_eq_some_iff.1 hw, Word.inRange_toInt w⟩
    · exact .inr (Option.ite_none_right_eq_some.1 hx).1

/-- A word of the shape of an integer is read at every place as the number that it denotes, and as
nothing if that is out of range. So every atom of a form that is read is either a numeral in range
or a name, never both, and a form that holds a numeral out of range is refused. -/
theorem numerals_denote_or_reject :
    (∀ (ts : List Token) (i : Nat) (t : Token) (text : String) (n : Int), ts[i]? = some t →
      t.lexeme = .atom text → Numeral.Denotes text.toList n →
        (Word.InRange n → ∃ w : Word, w.toInt = n ∧
          expressionAt ts i = some (.literal (.number w), i + 1) ∧
          valueAt ts i = some (.literal (.number w), i + 1) ∧
          constantAt ts i = some (.number w, i + 1)) ∧
        (¬ Word.InRange n →
          expressionAt ts i = none ∧ valueAt ts i = none ∧ constantAt ts i = none)) ∧
    (∀ (ts : List Token) (e : Expr), parse (ts.map Token.lexeme) = .ok e →
      ∀ t ∈ ts, ∀ text, t.lexeme = .atom text →
        (∃ n, Numeral.Denotes text.toList n ∧ Word.InRange n) ∨ isName text = true) ∧
    (∀ (text : String) (n : Int), Numeral.Denotes text.toList n → isName text = false) ∧
    (∀ (ts : List Token) (t : Token) (text : String) (n : Int), t ∈ ts → t.lexeme = .atom text →
      Numeral.Denotes text.toList n → ¬ Word.InRange n →
        ∃ err, parse (ts.map Token.lexeme) = .error err) := by
  have hatoms : ∀ (ts : List Token) (e : Expr), parse (ts.map Token.lexeme) = .ok e →
      ∀ t ∈ ts, ∀ text, t.lexeme = .atom text →
        (∃ n, Numeral.Denotes text.toList n ∧ Word.InRange n) ∨ isName text = true := by
    intro ts e h t ht text hatom
    apply Lexeme.Meant.of_atom
    rw [← hatom]
    exact meant_of_parse h t.lexeme (List.mem_map_of_mem ht)
  refine ⟨fun ts i t text n ht hatom hn => ⟨fun hrange => ?_, fun hrange => ?_⟩, hatoms,
    fun text n hn => hn.isName_eq_false, fun ts t text n ht hatom hn hrange => ?_⟩
  · obtain ⟨w, hw⟩ := Word.exists_ofInt?_of_inRange hrange
    exact ⟨w, Word.ofInt?_eq_some_iff.1 hw, read_of_number? (hn.read?_eq.trans hw) ht hatom⟩
  · have hnone : Word.ofInt? n = none := Word.ofInt?_of_not_inRange hrange
    exact read_of_number?_eq_none hn.isNumeral (hn.read?_eq.trans hnone) ht hatom
  · cases hparse : parse (ts.map Token.lexeme) with
    | error err => exact ⟨err, rfl⟩
    | ok e =>
      obtain ⟨m, hm, hin⟩ | hname := hatoms ts e hparse t ht text hatom
      · rw [hm.unique hn] at hin
        exact absurd hin hrange
      · rw [hn.isName_eq_false] at hname
        cases hname

/-- The least word with a zero in front, and a quoted list of the integer below it. -/
theorem numerals_denote_or_reject_least :
    Numeral.Denotes "-09223372036854775808".toList (-9223372036854775808) ∧
    Word.InRange (-9223372036854775808) ∧
    (∃ w : Word, w.toInt = -9223372036854775808 ∧
      constantAt [⟨.atom "-09223372036854775808", 1, 1⟩] 0 = some (.number w, 1)) ∧
    Numeral.Denotes "-9223372036854775809".toList (-9223372036854775809) ∧
    ¬ Word.InRange (-9223372036854775809) ∧
    ∃ err, parse [.quote, .leftParen, .atom "-9223372036854775809", .rightParen] = .error err := by
  have hleast : Numeral.Denotes "-09223372036854775808".toList (-9223372036854775808) :=
    @Numeral.Denotes.negative "09223372036854775808".toList (by decide) (List.all_eq_true.1 rfl)
  have hbelow : Numeral.Denotes "-9223372036854775809".toList (-9223372036854775809) :=
    @Numeral.Denotes.negative "9223372036854775809".toList (by decide) (List.all_eq_true.1 rfl)
  have hrange : Word.InRange (-9223372036854775808) := by constructor <;> decide
  have hout : ¬ Word.InRange (-9223372036854775809) := fun h => absurd h.1 (by decide)
  obtain ⟨hread, -, -, hreject⟩ := numerals_denote_or_reject
  obtain ⟨w, hw, -, -, hconstant⟩ :=
    (hread [⟨.atom "-09223372036854775808", 1, 1⟩] 0 _ _ _ rfl rfl hleast).1 hrange
  refine ⟨hleast, hrange, ⟨w, hw, hconstant⟩, hbelow, hout, ?_⟩
  exact hreject [⟨.quote, 1, 1⟩, ⟨.leftParen, 1, 2⟩, ⟨.atom "-9223372036854775809", 1, 3⟩,
    ⟨.rightParen, 1, 23⟩] ⟨.atom "-9223372036854775809", 1, 3⟩ _ _ (by simp) rfl hbelow hout

end PocketLisp
