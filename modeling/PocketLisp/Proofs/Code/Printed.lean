import PocketLisp.Proofs.Value.Printed

/-!
# The lexemes of a printed expression

## Main definitions

- `Expr.Readable` — all names and symbols inside an expression are readable
- `Expr.lexemes` — the lexemes of the printed form of an expression

## Main statements

- `Expr.scanAll_chars` — the printed form is cut into these lexemes
- `Expr.newline_notMem_chars` — and it stays within its line
-/

namespace PocketLisp

theorem Lexeme.ofName_cases (x : String) : ofName x = quote ∨ ofName x = atom x := by
  by_cases hquote : x = "'"
  · exact .inl (if_pos hquote)
  · exact .inr (if_neg hquote)

theorem Lexeme.newline_ne_ofName (x : String) : newline ≠ ofName x := by
  rcases ofName_cases x with h | h
  · simp [h]
  · simp [h]

namespace Expr

/-- The names and symbols that an expression itself holds are readable. -/
def HoldsReadable : Expr → Prop
  | literal v => v.Readable
  | var x => Symbol.Readable x
  | lambda formals _ => ∀ x ∈ formals, Symbol.Readable x
  | _ => True

/-- All names and symbols inside the expression are readable. -/
def Readable (e : Expr) : Prop := e.All HoldsReadable

mutual

/-- The lexemes of the text of an expression. -/
def lexemes : Expr → List Lexeme
  | literal v => v.lexemes
  | var x => [.ofName x]
  | lambda formals body =>
    .leftParen :: .atom "lambda" :: .leftParen ::
      (formals.map .ofName ++ .rightParen :: (body.lexemes ++ [.rightParen]))
  | special keyword args => .leftParen :: .atom keyword.text :: (allLexemes args ++ [.rightParen])
  | call operator args => .leftParen :: (operator.lexemes ++ (allLexemes args ++ [.rightParen]))

/-- The lexemes of the texts of several expressions, one after another. -/
def allLexemes : List Expr → List Lexeme
  | [] => []
  | e :: es => e.lexemes ++ allLexemes es

end

/-! ### The printed form, by constructors -/

section
variable {formals : List String} {keyword : Keyword} {body operator e : Expr} {args es : List Expr}

theorem chars_lambda : (lambda formals body).chars =
    "(lambda (".toList ++ ((" ".intercalate formals).toList ++
      ')' :: ' ' :: (body.chars ++ [')'])) := by
  rw [← List.append_assoc]
  rfl

theorem chars_special :
    (special keyword args).chars = '(' :: (keyword.text.toList ++ argsChars args) := rfl

theorem chars_call : (call operator args).chars = '(' :: (operator.chars ++ argsChars args) := rfl

theorem argsChars_cons : argsChars (e :: es) = ' ' :: (e.chars ++ argsChars es) := rfl

end

/-! ### Names -/

variable {x : String} {xs : List String} {cs : List Char} {es : List Expr}

/-- A readable name is a readable symbol. -/
theorem readable_of_symbol_eq (hx : Symbol.Readable x) :
    ∀ name, Value.symbol x = .symbol name → Symbol.Readable name := by
  intro name h
  cases h
  exact hx

theorem scanAll_name (hx : Symbol.Readable x) (hcs : Delimited cs) :
    Lexeme.scanAll (x.toList ++ cs) = .ofName x :: Lexeme.scanAll cs :=
  Value.scanAll_leafChars (readable_of_symbol_eq hx) hcs

theorem toList_intercalate_cons (x y : String) (xs : List String) :
    (" ".intercalate (x :: y :: xs)).toList =
      x.toList ++ ' ' :: (" ".intercalate (y :: xs)).toList := by
  simp [String.toList_intercalate]

/-- Names with spaces between them are cut into these names. -/
theorem scanAll_names (hxs : ∀ x ∈ xs, Symbol.Readable x) (hcs : Delimited cs) :
    Lexeme.scanAll ((" ".intercalate xs).toList ++ cs) =
      xs.map .ofName ++ Lexeme.scanAll cs := by
  induction xs with
  | nil => rfl
  | cons x xs ih =>
    obtain ⟨hx, hrest⟩ := List.forall_mem_cons.1 hxs
    cases xs with
    | nil =>
      have hone : (" ".intercalate [x]).toList = x.toList := by simp
      rw [hone, scanAll_name hx hcs]
      rfl
    | cons y ys =>
      rw [toList_intercalate_cons, List.append_assoc, List.cons_append,
        scanAll_name hx (Value.delimited_cons (by decide)), Lexeme.scanAll_blank (by decide),
        ih hrest]
      rfl

theorem newline_notMem_name (hx : Symbol.Readable x) : '\n' ∉ x.toList :=
  Value.newline_notMem_leafChars (readable_of_symbol_eq hx)

theorem newline_notMem_names (hxs : ∀ x ∈ xs, Symbol.Readable x) :
    '\n' ∉ (" ".intercalate xs).toList := by
  induction xs with
  | nil => decide
  | cons x xs ih =>
    obtain ⟨hx, hrest⟩ := List.forall_mem_cons.1 hxs
    cases xs with
    | nil => simpa [String.toList_intercalate] using newline_notMem_name hx
    | cons y ys =>
      rw [toList_intercalate_cons, List.mem_append, List.mem_cons]
      rintro (h | h | h)
      · exact newline_notMem_name hx h
      · cases h
      · exact ih hrest h

theorem isAtom_keyword (keyword : Keyword) : Lexeme.IsAtom keyword.text.toList := by
  cases keyword <;> exact .of_all (by decide)

theorem delimited_argsChars (es : List Expr) : Delimited (argsChars es ++ cs) := by
  cases es <;> exact Value.delimited_cons (by decide)

/-! ### Scanning -/

/-- Before its formals, a `lambda` is printed as two parentheses and the word. -/
theorem scanAll_lambda (cs : List Char) :
    Lexeme.scanAll ("(lambda (".toList ++ cs) =
      .leftParen :: .atom "lambda" :: .leftParen :: Lexeme.scanAll cs := by
  have hword : Lexeme.scanAll ("lambda".toList ++ ' ' :: '(' :: cs) =
      .atom "lambda" :: Lexeme.scanAll (' ' :: '(' :: cs) := by
    have hatom : Lexeme.IsAtom "lambda".toList := .of_all (by decide)
    exact Lexeme.scanAll_atom hatom (Value.delimited_cons (by decide))
  show Lexeme.scanAll ('(' :: ("lambda".toList ++ ' ' :: '(' :: cs)) = _
  rw [Lexeme.scanAll_leftParen, hword, Lexeme.scanAll_blank (by decide), Lexeme.scanAll_leftParen]

mutual

/-- The printed form of a readable expression is cut into its lexemes. -/
theorem scanAll_chars : ∀ (e : Expr) (cs : List Char), e.Readable → Delimited cs →
    Lexeme.scanAll (e.chars ++ cs) = e.lexemes ++ Lexeme.scanAll cs
  | literal v, cs, h, hcs => Value.scanAll_chars h hcs
  | var x, cs, h, hcs => scanAll_name h hcs
  | lambda formals body, cs, ⟨hformals, hbody⟩, hcs => by
    have hclose : Delimited (')' :: ' ' :: (body.chars ++ ')' :: cs)) :=
      Value.delimited_cons (by decide)
    simp only [chars_lambda, lexemes, List.append_assoc, List.cons_append, List.nil_append]
    rw [scanAll_lambda, scanAll_names hformals hclose, Lexeme.scanAll_rightParen,
      Lexeme.scanAll_blank (by decide),
      scanAll_chars body _ hbody (Value.delimited_cons (by decide)), Lexeme.scanAll_rightParen]
  | special keyword args, cs, ⟨_, hargs⟩, hcs => by
    have hargsChars : Delimited (argsChars args ++ cs) := delimited_argsChars args
    have hkeyword := Lexeme.scanAll_atom (isAtom_keyword keyword) hargsChars
    rw [String.ofList_toList] at hkeyword
    rw [chars_special, List.cons_append, List.append_assoc, Lexeme.scanAll_leftParen, hkeyword,
      scanAll_argsChars args cs hargs, lexemes, List.cons_append, List.cons_append]
  | call operator args, cs, ⟨_, hoperator, hargs⟩, hcs => by
    rw [chars_call, List.cons_append, List.append_assoc, Lexeme.scanAll_leftParen,
      scanAll_chars operator _ hoperator (delimited_argsChars args),
      scanAll_argsChars args cs hargs, lexemes, List.cons_append]
    simp only [List.append_assoc]

theorem scanAll_argsChars : ∀ (es : List Expr) (cs : List Char), AllArgs HoldsReadable es →
    Lexeme.scanAll (argsChars es ++ cs) = allLexemes es ++ [.rightParen] ++ Lexeme.scanAll cs
  | [], cs, _ => Lexeme.scanAll_rightParen
  | e :: es, cs, ⟨he, hes⟩ => by
    rw [argsChars_cons, List.cons_append, Lexeme.scanAll_blank (by decide), List.append_assoc,
      scanAll_chars e _ he (delimited_argsChars es), scanAll_argsChars es cs hes, allLexemes]
    simp only [List.append_assoc]

end

/-! ### Printed forms stay within their line -/

mutual

/-- The printed form of a readable expression stays within its line. -/
theorem newline_notMem_chars : ∀ e : Expr, e.Readable → '\n' ∉ e.chars
  | literal v, h => Value.newline_notMem_chars h
  | var x, h => newline_notMem_name h
  | lambda formals body, ⟨hformals, hbody⟩ => by
    have hopen : '\n' ∉ "(lambda (".toList := by decide
    have hnames := newline_notMem_names hformals
    have hrest := newline_notMem_chars body hbody
    simp only [chars_lambda, List.mem_append, List.mem_cons, hopen, hnames, hrest]
    simp
  | special keyword args, ⟨_, hargs⟩ => by
    have hkeyword : '\n' ∉ keyword.text.toList := by cases keyword <;> decide
    have hrest := newline_notMem_argsChars args hargs
    simp only [chars_special, List.mem_append, List.mem_cons, hkeyword, hrest]
    simp
  | call operator args, ⟨_, hoperator, hargs⟩ => by
    have hfirst := newline_notMem_chars operator hoperator
    have hrest := newline_notMem_argsChars args hargs
    simp only [chars_call, List.mem_append, List.mem_cons, hfirst, hrest]
    simp

theorem newline_notMem_argsChars : ∀ es : List Expr, AllArgs HoldsReadable es → '\n' ∉ argsChars es
  | [], _ => by decide
  | e :: es, ⟨he, hes⟩ => by
    have hfirst := newline_notMem_chars e he
    have hrest := newline_notMem_argsChars es hes
    simp only [argsChars_cons, List.mem_append, List.mem_cons, hfirst, hrest]
    simp

end

/-! ### The lexemes of a printed form -/

theorem lexemes_ne_nil (e : Expr) : e.lexemes ≠ [] := by
  cases e with
  | literal v => cases v <;> exact List.cons_ne_nil _ _
  | _ => exact List.cons_ne_nil _ _

theorem chars_ne_nil {e : Expr} (h : e.Readable) : e.chars ≠ [] := by
  intro hnil
  have hscan := scanAll_chars e [] h nofun
  rw [hnil, List.nil_append, Lexeme.scanAll_nil, List.append_nil] at hscan
  exact lexemes_ne_nil e hscan.symm

mutual

theorem newline_notMem_lexemes : ∀ e : Expr, .newline ∉ e.lexemes
  | literal v => v.newline_notMem_lexemes
  | var x => by simpa [lexemes] using Lexeme.newline_ne_ofName x
  | lambda formals body => by
    have hformals : .newline ∉ formals.map Lexeme.ofName := by
      rw [List.mem_map]
      rintro ⟨x, -, hx⟩
      exact Lexeme.newline_ne_ofName x hx.symm
    simp [lexemes, hformals, newline_notMem_lexemes body]
  | special keyword args => by simp [lexemes, newline_notMem_allLexemes args]
  | call operator args => by
    simp [lexemes, newline_notMem_lexemes operator, newline_notMem_allLexemes args]

theorem newline_notMem_allLexemes : ∀ es : List Expr, .newline ∉ allLexemes es
  | [] => by simp [allLexemes]
  | e :: es => by
    simp [allLexemes, newline_notMem_lexemes e, newline_notMem_allLexemes es]

end

end Expr

end PocketLisp
