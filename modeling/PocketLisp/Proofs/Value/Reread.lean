import PocketLisp.Proofs.Input.Tokenize
import PocketLisp.Proofs.Value.Printed

/-!
# Reading undoes printing

What a value prints as is read, after a quote mark, as a constant that prints in the same way. Not
every value is read back: a closure and a primitive are read as symbols, and the dot of a list that
does not end in the empty list is read as a symbol too.

## Main definitions

- `Value.reread` — what the printed form of a value is read as
- `Value.Plain` — the values that are read back as they are

## Main statements

- `Value.constant_lexemes` — the grammar derives `reread` from the lexemes of the printed form
- `Value.chars_reread` — it has the same printed form
- `Value.reads_printed` — so reading undoes printing
-/

namespace PocketLisp

namespace Value

/-- What the printed form of a value that is no pair is read as. -/
def rereadLeaf : Value → Value
  | closure _ => symbol "<closure>"
  | primitive op => symbol op.name
  | v => v

mutual

/-- What the printed form of a value is read as. -/
def reread : Value → Value
  | pair car cdr => pair car.reread cdr.rereadRest
  | v => v.rereadLeaf

/-- What the items after the first of a list are read as. -/
def rereadRest : Value → Value
  | nil => nil
  | pair car cdr => pair car.reread cdr.rereadRest
  | v => pair (symbol ".") (pair v.rereadLeaf nil)

end

/-- The values made of numbers, symbols and lists that end in the empty list. -/
inductive Plain : Value → Prop
  | number (n : Word) : Plain (number n)
  | symbol (name : String) : Plain (symbol name)
  | list {vs : List Value} : (∀ v ∈ vs, Plain v) → Plain (ofList vs)

variable {v : Value} {rest : List Lexeme}

/-! ### The grammar derives what is read -/

theorem isName_of_readable {name : String} (h : Symbol.Readable name) (hname : name ≠ "'") :
    isName name = true := by
  obtain ⟨hne, hnumeral, hsolid, -⟩ := h.resolve_left hname
  have hchars : (name.toList.all fun c => c != '(' && c != ')' && c != ';' && c != ' ') = true := by
    rw [List.all_eq_true]
    intro c hc
    have hne_of : ∀ d : Char, isDelimiter d = true → (c != d) = true := by
      intro d hd
      rw [bne_iff_ne]
      rintro rfl
      rw [hsolid c hc] at hd
      cases hd
    rw [hne_of '(' (by decide), hne_of ')' (by decide), hne_of ';' (by decide),
      hne_of ' ' (by decide)]
    rfl
  have hempty : name.isEmpty = false := by simpa using hne
  rw [isName, hempty, hnumeral, hchars]
  rfl

theorem name_ofName {name : String} (h : Symbol.Readable name) :
    Grammar.Name (.ofName name :: rest) name rest := by
  by_cases hname : name = "'"
  · subst hname
    exact .quote
  · rw [Lexeme.ofName, if_neg hname]
    exact .of_isName (isName_of_readable h hname)

theorem isName_primitive (op : Primitive) : isName op.name = true := by
  cases op <;> decide

theorem constant_leafLexemes (hv : ∀ name, v = symbol name → Symbol.Readable name)
    (hpair : ∀ car cdr, v ≠ pair car cdr) :
    Grammar.Constant (v.leafLexemes ++ rest) v.rereadLeaf rest := by
  cases v with
  | number n =>
    exact .number (.of_read? (Numeral.read?_text n))
  | symbol name => exact .symbol (name_ofName (hv name rfl))
  | closure id => exact .symbol (.of_isName (by decide))
  | primitive op => exact .symbol (.of_isName (isName_primitive op))
  | nil => exact .list .nil
  | pair car cdr => exact absurd rfl (hpair car cdr)

theorem constants_dotted (hv : ∀ name, v = symbol name → Symbol.Readable name)
    (hpair : ∀ car cdr, v ≠ pair car cdr) (rest : List Lexeme) :
    Grammar.Constants (.atom "." :: (v.leafLexemes ++ [.rightParen]) ++ rest)
      [symbol ".", v.rereadLeaf] (.rightParen :: rest) := by
  simp only [List.cons_append, List.append_assoc, List.nil_append]
  have hdot : isName "." = true := by decide
  exact .cons (.symbol (.of_isName hdot)) (.cons (constant_leafLexemes hv hpair) .nil)

/-- The grammar derives what is read from a list and from what follows its first item. -/
theorem constant_lexemes_aux (hv : v.Readable) :
    (∀ rest, Grammar.Constant (v.lexemes ++ rest) v.reread rest) ∧
      ∀ rest, ∃ vs, Grammar.Constants (v.restLexemes ++ rest) vs (.rightParen :: rest) ∧
        ofList vs = v.rereadRest := by
  -- The parenthesis that ends a list is printed with its last item, and read with the list.
  induction v with
  | pair car cdr ihcar ihcdr =>
    obtain ⟨-, hcar, hcdr⟩ := hv
    have hitems : ∀ rest, ∃ vs, Grammar.Constants (car.lexemes ++ cdr.restLexemes ++ rest) vs
        (.rightParen :: rest) ∧ ofList vs = pair car.reread cdr.rereadRest := by
      intro rest
      obtain ⟨vs, hvs, hlist⟩ := (ihcdr hcdr).2 rest
      rw [List.append_assoc]
      exact ⟨car.reread :: vs, .cons ((ihcar hcar).1 _) hvs, congrArg (pair car.reread) hlist⟩
    refine ⟨fun rest => ?_, hitems⟩
    obtain ⟨vs, hvs, hlist⟩ := hitems rest
    rw [reread, ← hlist]
    exact .list hvs
  | nil => exact ⟨fun rest => constant_leafLexemes hv nofun, fun rest => ⟨[], .nil, rfl⟩⟩
  | number | symbol | closure | primitive =>
    refine ⟨fun rest => constant_leafLexemes hv nofun, fun rest => ?_⟩
    exact ⟨_, constants_dotted hv nofun rest, rfl⟩

/-- The grammar derives `reread` from the lexemes of the printed form. -/
theorem constant_lexemes (hv : v.Readable) : Grammar.Constant (v.lexemes ++ rest) v.reread rest :=
  (constant_lexemes_aux hv).1 rest

/-! ### Its printed form is the same -/

theorem chars_reread_aux (v : Value) :
    v.reread.chars = v.chars ∧ v.rereadRest.restChars = v.restChars := by
  induction v with
  | pair car cdr ihcar ihcdr =>
    constructor
    · rw [reread, chars, chars, ihcar.1, ihcdr.2]
    · rw [rereadRest, restChars, restChars, ihcar.1, ihcdr.2]
  | nil | number | symbol | closure | primitive => exact ⟨rfl, rfl⟩

theorem text_reread (v : Value) : v.reread.text = v.text := by
  rw [text, text, (chars_reread_aux v).1]

theorem reread_ofList {vs : List Value} (h : ∀ v ∈ vs, v.reread = v) :
    (ofList vs).reread = ofList vs ∧ (ofList vs).rereadRest = ofList vs := by
  induction vs with
  | nil => exact ⟨rfl, rfl⟩
  | cons v vs ih =>
    obtain ⟨hv, hvs⟩ := List.forall_mem_cons.1 h
    have hpair : pair v.reread (ofList vs).rereadRest = ofList (v :: vs) := by
      rw [hv, (ih hvs).2]
      rfl
    exact ⟨hpair, hpair⟩

/-- Plain values are read back as they are. -/
theorem Plain.reread_eq (h : v.Plain) : v.reread = v := by
  induction h with
  | number n => rfl
  | symbol name => rfl
  | list _ ih => exact (reread_ofList ih).1

/-! ### Texts -/

/-- The lexemes of a text that stays within its line. -/
theorem tokenize_of_notMem {text : String} (h : '\n' ∉ text.toList) (hne : text ≠ "") :
    ∃ ts, tokenize text = .ok ts ∧
      ts.map Token.lexeme = Lexeme.scanAll (text.toList ++ ['\n']) := by
  have hne' : text.toList ≠ [] := by simpa using hne
  refine ⟨_, tokenize_eq text, ?_⟩
  rw [splitAfter_of_notMem h hne', List.map_singleton, TokenStream.completeLine_of_notMem h hne',
    tokensOfLines, tokensOfLines, List.append_nil, lexemes_tokensOfLine]

/-- Reading undoes printing: after a quote mark, the printed form of a value whose symbols are
readable is read as a constant that prints in the same way, and a plain value is read as itself. -/
theorem reads_printed {v : Value} (hv : v.Readable) :
    ∃ ts w, tokenize ("'" ++ v.text) = .ok ts ∧
      parse ((ts.filter fun t => t.lexeme ≠ .newline).map Token.lexeme) = .ok (.literal w) ∧
      w.text = v.text ∧ (v.Plain → w = v) := by
  have hchars : ("'" ++ v.text).toList = '\x27' :: v.chars := by
    simp [text]
  have hnewline : '\n' ∉ ("'" ++ v.text).toList := by
    rw [hchars]
    exact List.not_mem_cons_of_ne_of_not_mem (by decide) (newline_notMem_chars hv)
  have hne : "'" ++ v.text ≠ "" := by
    intro h
    rw [h] at hchars
    cases hchars
  obtain ⟨ts, hts, hlexemes⟩ := tokenize_of_notMem hnewline hne
  refine ⟨ts, v.reread, hts, ?_, text_reread v, Plain.reread_eq⟩
  have hscan : ts.map Token.lexeme = .quote :: (v.lexemes ++ [.newline]) := by
    rw [hlexemes, hchars, List.cons_append, Lexeme.scanAll_quote,
      scanAll_chars hv (delimited_cons (by decide)), Lexeme.scanAll_newline, Lexeme.scanAll_nil]
  have hkept : (ts.filter fun t => t.lexeme ≠ .newline).map Token.lexeme =
      .quote :: v.lexemes := by
    have hfilter : v.lexemes.filter (fun l => l ≠ .newline) = v.lexemes := by
      rw [List.filter_eq_self]
      intro l hl
      have hne : l ≠ .newline := fun heq => newline_notMem_lexemes v (heq ▸ hl)
      simpa using hne
    have hmap : (ts.filter fun t => t.lexeme ≠ .newline).map Token.lexeme =
        (ts.map Token.lexeme).filter fun l => l ≠ .newline := by
      rw [List.filter_map]
      rfl
    rw [hmap, hscan, List.filter_cons_of_pos (by decide), List.filter_append, hfilter]
    simp
  rw [hkept, parse_eq_ok_iff, Grammar.expression_iff_rule]
  have hconstant : Grammar.Constant (v.lexemes ++ []) v.reread [] := constant_lexemes hv
  rw [List.append_nil] at hconstant
  exact .plain (.quoted hconstant)

/-- Inside a list with a dot there may be anything that prints as a word. -/
theorem reads_printed_dotted :
    (pair (symbol "'") (pair (number (-7)) (pair (closure 3) (primitive .add)))).Readable ∧
    ∃ ts w, tokenize ("'" ++ "(' -7 <closure> . +)") = .ok ts ∧
      parse ((ts.filter fun t => t.lexeme ≠ .newline).map Token.lexeme) = .ok (.literal w) ∧
      w.text = "(' -7 <closure> . +)" := by
  have hreadable : (pair (symbol "'") (pair (number (-7))
      (pair (closure 3) (primitive .add)))).Readable := by
    refine ⟨nofun, ?_, nofun, nofun, nofun, nofun, nofun⟩
    intro name h
    cases h
    exact .inl rfl
  refine ⟨hreadable, ?_⟩
  obtain ⟨ts, w, hts, hparse, htext, -⟩ := reads_printed hreadable
  have hprinted : (pair (symbol "'") (pair (number (-7))
      (pair (closure 3) (primitive .add)))).text = "(' -7 <closure> . +)" := by decide +kernel
  rw [hprinted] at hts htext
  exact ⟨ts, w, hts, hparse, htext⟩

end Value

end PocketLisp
