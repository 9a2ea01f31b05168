import PocketLisp.Proofs.Code.Parts
import PocketLisp.Proofs.Text.Numeral

/-!
# The lexemes of a printed value

## Main definitions

- `Symbol.Readable` — the names of symbols whose printed form is a single lexeme for a name
- `Value.Readable` — all symbols inside a value are readable
- `Value.lexemes` — the lexemes of the printed form of a value

## Main statements

- `Value.scanAll_chars` — the printed form is cut into these lexemes
- `Value.newline_notMem_chars` — and it stays within its line
-/

namespace PocketLisp

/-- A name that is read as a name again: a quote mark, or a word that has not the shape of an
integer and holds no delimiter, and does not start with a quote mark. -/
def Symbol.Readable (name : String) : Prop :=
  name = "'" ∨ name ≠ "" ∧ isNumeral name = false ∧ (∀ c ∈ name.toList, isDelimiter c = false) ∧
    name.toList.head? ≠ some '\x27'

/-- The lexeme of a name. -/
def Lexeme.ofName (name : String) : Lexeme := if name = "'" then quote else atom name

namespace Value

/-- All symbols inside the value are readable. -/
def Readable (v : Value) : Prop := v.All fun w => ∀ name, w = symbol name → Symbol.Readable name

/-- The lexemes of the text of a value that is no pair. -/
def leafLexemes : Value → List Lexeme
  | number n => [.atom (String.ofList (Numeral.chars n.toInt))]
  | symbol name => [.ofName name]
  | closure _ => [.atom "<closure>"]
  | primitive op => [.atom op.name]
  | nil | pair .. => [.leftParen, .rightParen]

mutual

/-- The lexemes of the text of a value. -/
def lexemes : Value → List Lexeme
  | pair car cdr => .leftParen :: (car.lexemes ++ cdr.restLexemes)
  | v => v.leafLexemes

/-- The lexemes of what follows the first item of a list, up to the closing parenthesis. -/
def restLexemes : Value → List Lexeme
  | nil => [.rightParen]
  | pair car cdr => car.lexemes ++ cdr.restLexemes
  | v => .atom "." :: (v.leafLexemes ++ [.rightParen])

end

/-! ### Atoms -/

theorem isAtom_closure : Lexeme.IsAtom "<closure>".toList := .of_all (by decide)

theorem isAtom_primitive (op : Primitive) : Lexeme.IsAtom op.name.toList := by
  apply Lexeme.IsAtom.of_all
  cases op <;> decide

theorem isAtom_dot : Lexeme.IsAtom ['.'] := .of_all (by decide)

theorem isAtom_symbol {name : String} (h : Symbol.Readable name) (hname : name ≠ "'") :
    Lexeme.IsAtom name.toList := by
  obtain ⟨hne, -, hsolid, hhead⟩ := h.resolve_left hname
  exact ⟨by simpa using hne, hsolid, hhead⟩

variable {v : Value} {cs : List Char}

theorem delimited_cons {c : Char} (h : isDelimiter c = true) : Delimited (c :: cs) := by
  intro d hd
  cases hd
  exact h

theorem delimited_restChars (v : Value) : Delimited (v.restChars ++ cs) := by
  cases v <;> exact delimited_cons (by decide)

/-! ### Scanning -/

theorem scanAll_leafChars (hv : ∀ name, v = symbol name → Symbol.Readable name)
    (hcs : Delimited cs) :
    Lexeme.scanAll (v.leafChars ++ cs) = v.leafLexemes ++ Lexeme.scanAll cs := by
  cases v with
  | number n => exact Lexeme.scanAll_atom (Numeral.isAtom_chars _) hcs
  | symbol name =>
    by_cases hname : name = "'"
    · subst hname
      exact Lexeme.scanAll_quote
    · have hatom := Lexeme.scanAll_atom (isAtom_symbol (hv name rfl) hname) hcs
      rw [String.ofList_toList] at hatom
      rw [leafLexemes, Lexeme.ofName, if_neg hname]
      exact hatom
  | closure id => exact Lexeme.scanAll_atom isAtom_closure hcs
  | primitive op =>
    have hatom := Lexeme.scanAll_atom (isAtom_primitive op) hcs
    rw [String.ofList_toList] at hatom
    exact hatom
  | nil | pair car cdr =>
    show Lexeme.scanAll ('(' :: ')' :: cs) = _
    rw [Lexeme.scanAll_leftParen, Lexeme.scanAll_rightParen]
    rfl

theorem scanAll_dotted (hv : ∀ name, v = symbol name → Symbol.Readable name) (cs : List Char) :
    Lexeme.scanAll (' ' :: '.' :: ' ' :: (v.leafChars ++ [')']) ++ cs) =
      .atom "." :: (v.leafLexemes ++ [.rightParen]) ++ Lexeme.scanAll cs := by
  have hdot : Lexeme.scanAll (['.'] ++ (' ' :: (v.leafChars ++ (')' :: cs)))) =
      .atom "." :: Lexeme.scanAll (' ' :: (v.leafChars ++ (')' :: cs))) :=
    Lexeme.scanAll_atom isAtom_dot (delimited_cons (by decide))
  have hclose : Delimited (')' :: cs) := delimited_cons (by decide)
  have hleaf := scanAll_leafChars hv hclose
  simp only [List.cons_append, List.append_assoc, List.nil_append] at hdot ⊢
  rw [Lexeme.scanAll_blank (by decide), hdot, Lexeme.scanAll_blank (by decide), hleaf,
    Lexeme.scanAll_rightParen]

/-- The printed form of a readable value is cut into its lexemes. -/
theorem scanAll_chars_aux (hv : v.Readable) :
    (∀ cs, Delimited cs → Lexeme.scanAll (v.chars ++ cs) = v.lexemes ++ Lexeme.scanAll cs) ∧
      ∀ cs, Lexeme.scanAll (v.restChars ++ cs) = v.restLexemes ++ Lexeme.scanAll cs := by
  -- A list is printed item by item, so the text of its rest goes along in the induction.
  induction v with
  | pair car cdr ihcar ihcdr =>
    obtain ⟨-, hcar, hcdr⟩ := hv
    have hitems : ∀ cs, Lexeme.scanAll (car.chars ++ cdr.restChars ++ cs) =
        car.lexemes ++ cdr.restLexemes ++ Lexeme.scanAll cs := by
      intro cs
      rw [List.append_assoc, (ihcar hcar).1 _ (delimited_restChars cdr), (ihcdr hcdr).2,
        List.append_assoc]
    constructor
    · intro cs _
      rw [chars, List.cons_append, Lexeme.scanAll_leftParen, hitems]
      rfl
    · intro cs
      rw [restChars, List.cons_append, Lexeme.scanAll_blank (by decide), hitems]
      rfl
  | nil =>
    refine ⟨fun cs hcs => scanAll_leafChars nofun hcs, fun cs => ?_⟩
    exact Lexeme.scanAll_rightParen
  | number | symbol | closure | primitive =>
    exact ⟨fun cs hcs => scanAll_leafChars hv hcs, fun cs => scanAll_dotted hv cs⟩

theorem scanAll_chars (hv : v.Readable) (hcs : Delimited cs) :
    Lexeme.scanAll (v.chars ++ cs) = v.lexemes ++ Lexeme.scanAll cs :=
  (scanAll_chars_aux hv).1 cs hcs

/-! ### Printed forms stay within their line -/

theorem newline_notMem_leafChars (hv : ∀ name, v = symbol name → Symbol.Readable name) :
    '\n' ∉ v.leafChars := by
  have hatom : ∀ {text : List Char}, Lexeme.IsAtom text → '\n' ∉ text := by
    intro text h hmem
    exact absurd (h.solid _ hmem) (by decide)
  cases v with
  | number n => exact hatom (Numeral.isAtom_chars _)
  | symbol name =>
    by_cases hname : name = "'"
    · subst hname
      decide
    · exact hatom (isAtom_symbol (hv name rfl) hname)
  | closure id => exact hatom isAtom_closure
  | primitive op => exact hatom (isAtom_primitive op)
  | nil | pair car cdr =>
    show '\n' ∉ "()".toList
    decide

theorem newline_notMem_chars_aux (hv : v.Readable) : '\n' ∉ v.chars ∧ '\n' ∉ v.restChars := by
  induction v with
  | pair car cdr ihcar ihcdr =>
    obtain ⟨-, hcar, hcdr⟩ := hv
    have hitems : '\n' ∉ car.chars ++ cdr.restChars := by
      simpa using ⟨(ihcar hcar).1, (ihcdr hcdr).2⟩
    exact ⟨List.not_mem_cons_of_ne_of_not_mem (by decide) hitems,
      List.not_mem_cons_of_ne_of_not_mem (by decide) hitems⟩
  | nil => constructor <;> decide
  | number | symbol | closure | primitive =>
    have hleaf := newline_notMem_leafChars hv
    exact ⟨hleaf, by simpa [restChars] using hleaf⟩

/-- The printed form of a readable value stays within its line. -/
theorem newline_notMem_chars (hv : v.Readable) : '\n' ∉ v.chars :=
  (newline_notMem_chars_aux hv).1

theorem newline_notMem_leafLexemes : .newline ∉ v.leafLexemes := by
  cases v with
  | symbol name =>
    rw [leafLexemes, Lexeme.ofName]
    split <;> simp
  | _ => simp [leafLexemes]

theorem newline_notMem_lexemes_aux (v : Value) :
    .newline ∉ v.lexemes ∧ .newline ∉ v.restLexemes := by
  induction v with
  | pair car cdr ihcar ihcdr =>
    have hitems : .newline ∉ car.lexemes ++ cdr.restLexemes := by
      simpa using ⟨ihcar.1, ihcdr.2⟩
    exact ⟨List.not_mem_cons_of_ne_of_not_mem nofun hitems, hitems⟩
  | nil => constructor <;> simp [lexemes, leafLexemes, restLexemes]
  | number | symbol | closure | primitive =>
    refine ⟨newline_notMem_leafLexemes, ?_⟩
    simpa [restLexemes] using newline_notMem_leafLexemes

theorem newline_notMem_lexemes (v : Value) : .newline ∉ v.lexemes :=
  (newline_notMem_lexemes_aux v).1

end Value

end PocketLisp
