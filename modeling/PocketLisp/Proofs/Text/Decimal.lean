import Mathlib.Data.List.Induction
import Mathlib.Data.Nat.Digits.Defs
import PocketLisp.Text.Numeral

/-!
# What numerals denote

The integer that a word denotes, and the words that can be names, without regard to how they are
read.

## Main definitions

- `Numeral.decimal` — the number that digits denote in base ten
- `Numeral.Denotes` — a text has the shape of an integer and denotes this one

## Main statements

- `Numeral.exists_denotes_iff`, `Numeral.Denotes.value_eq` — the shape and the value of a numeral
- `Numeral.read?_eq_some_iff` — a numeral is read as the word that it denotes
- `isName_iff` — what a name is
-/

namespace PocketLisp

namespace Numeral

/-- The number that digits denote in base ten, the last one being that of the units. -/
def decimal (digits : List Char) : Nat :=
  Nat.ofDigits 10 (digits.reverse.map fun d => d.toNat - '0'.toNat)

/-- The text is digits, perhaps after a minus sign, and denotes the integer. -/
inductive Denotes : List Char → Int → Prop
  | unsigned {digits : List Char} : digits ≠ [] → (∀ d ∈ digits, d.isDigit = true) →
      Denotes digits (decimal digits)
  | negative {digits : List Char} : digits ≠ [] → (∀ d ∈ digits, d.isDigit = true) →
      Denotes ('-' :: digits) (-(decimal digits : Int))

variable {text : String} {cs digits : List Char} {n : Int}

theorem ofDigitChars_eq_decimal (digits : List Char) :
    Nat.ofDigitChars 10 digits 0 = decimal digits := by
  induction digits using List.reverseRecOn with
  | nil => rfl
  | append_singleton digits d ih =>
    rw [Nat.ofDigitChars_append, ih, Nat.ofDigitChars_cons, Nat.ofDigitChars_nil, decimal, decimal,
      List.reverse_append, List.reverse_singleton, List.singleton_append, List.map_cons,
      Nat.ofDigits_cons, Nat.add_comm]

/-- A minus sign is no digit. -/
theorem ne_minus_cons_of_isDigit (h : ∀ d ∈ digits, d.isDigit = true) (cs : List Char) :
    digits ≠ '-' :: cs := by
  rintro rfl
  exact absurd (h '-' List.mem_cons_self) (by decide)

theorem unsigned_of_isDigit (h : ∀ d ∈ digits, d.isDigit = true) : unsigned digits = digits := by
  unfold unsigned
  split
  · next cs => exact absurd rfl (ne_minus_cons_of_isDigit h cs)
  · rfl

theorem value_of_isDigit (h : ∀ d ∈ digits, d.isDigit = true) :
    value digits = Nat.ofDigitChars 10 digits 0 := by
  unfold value
  split
  · next cs => exact absurd rfl (ne_minus_cons_of_isDigit h cs)
  · rfl

theorem Denotes.value_eq (h : Denotes cs n) : value cs = n := by
  cases h with
  | unsigned hne hdigits => rw [value_of_isDigit hdigits, ofDigitChars_eq_decimal]
  | negative hne hdigits =>
    show -(Nat.ofDigitChars 10 _ 0 : Int) = _
    rw [ofDigitChars_eq_decimal]

theorem isNumeral_iff_unsigned :
    isNumeral text = true ↔
      unsigned text.toList ≠ [] ∧ ∀ d ∈ unsigned text.toList, d.isDigit = true := by
  rw [isNumeral, Bool.and_eq_true, Bool.not_eq_true', List.isEmpty_eq_false_iff, List.all_eq_true]

/-- The texts that denote an integer are those of the shape of a numeral. -/
theorem exists_denotes_iff : (∃ n, Denotes text.toList n) ↔ isNumeral text = true := by
  rw [isNumeral_iff_unsigned]
  generalize text.toList = cs
  constructor
  · rintro ⟨n, h⟩
    cases h with
    | unsigned hne hdigits =>
      rw [unsigned_of_isDigit hdigits]
      exact ⟨hne, hdigits⟩
    | negative hne hdigits => exact ⟨hne, hdigits⟩
  · unfold unsigned
    split
    · rintro ⟨hne, hdigits⟩
      exact ⟨_, .negative hne hdigits⟩
    · rintro ⟨hne, hdigits⟩
      exact ⟨_, .unsigned hne hdigits⟩

theorem Denotes.isNumeral (h : Denotes text.toList n) : isNumeral text = true :=
  exists_denotes_iff.1 ⟨n, h⟩

theorem Denotes.read?_eq (h : Denotes text.toList n) : read? text = Word.ofInt? n := by
  rw [read?, if_pos h.isNumeral, h.value_eq]

theorem Denotes.unique {m : Int} (h : Denotes cs n) (h' : Denotes cs m) : n = m :=
  h.value_eq.symm.trans h'.value_eq

/-- A numeral is read as the word that it denotes. -/
theorem read?_eq_some_iff {w : Word} : read? text = some w ↔ Denotes text.toList w.toInt := by
  constructor
  · intro h
    obtain ⟨hshape, hvalue⟩ := Option.ite_none_right_eq_some.1 h
    obtain ⟨n, hn⟩ := exists_denotes_iff.2 hshape
    rw [hn.value_eq, Word.ofInt?_eq_some_iff] at hvalue
    rwa [hvalue]
  · intro h
    rw [h.read?_eq, Word.ofInt?_toInt]

end Numeral

/-- A name is a word that is not empty, denotes no integer, and holds no parenthesis, semicolon or
space. -/
theorem isName_iff {text : String} :
    isName text = true ↔ text ≠ "" ∧ (∀ n, ¬ Numeral.Denotes text.toList n) ∧
      ∀ c ∈ text.toList, c ≠ '(' ∧ c ≠ ')' ∧ c ≠ ';' ∧ c ≠ ' ' := by
  rw [← not_exists, Numeral.exists_denotes_iff]
  simp [isName, and_assoc]

theorem Numeral.Denotes.isName_eq_false {text : String} {n : Int} (h : Denotes text.toList n) :
    isName text = false :=
  isName_eq_false_of_isNumeral h.isNumeral

end PocketLisp
