import PocketLisp.Proofs.Text.Decimal
import PocketLisp.Proofs.Token.Lexemes

/-!
# Numerals are read back

## Main statements

- `Numeral.isAtom_chars` — a numeral is a single atom
- `Numeral.isNumeral_chars`, `Numeral.value_chars` — the shortest numeral of an integer has the
  shape of a numeral and denotes the integer
- `Numeral.read?_text` — the numeral of a word is read as the word
-/

namespace PocketLisp

theorem isDelimiter_of_isDigit {c : Char} (h : c.isDigit = true) : isDelimiter c = false := by
  obtain ⟨hlow, hhigh⟩ : 48 ≤ c.toNat ∧ c.toNat ≤ 57 := by
    simp only [Char.isDigit, Bool.and_eq_true, decide_eq_true_eq] at h
    exact ⟨UInt32.le_iff_toNat_le.1 h.1, UInt32.le_iff_toNat_le.1 h.2⟩
  have hblank : isBlank c = false := by
    simp [isBlank, blankRanges, Ranges.contains]
    omega
  have hne : ∀ d : Char, ¬ (48 ≤ d.toNat ∧ d.toNat ≤ 57) → (c == d) = false := by
    intro d hd
    rw [beq_eq_false_iff_ne]
    rintro rfl
    exact hd ⟨hlow, hhigh⟩
  rw [isDelimiter, hblank, hne '(' (by decide), hne ')' (by decide), hne ';' (by decide)]
  rfl

namespace Numeral

theorem isDigit_of_mem_toDigits {n : Nat} {c : Char} (h : c ∈ Nat.toDigits 10 n) :
    c.isDigit = true :=
  Nat.isDigit_of_mem_toDigits (by decide) (by decide) h

theorem unsigned_toDigits (n : Nat) : unsigned (Nat.toDigits 10 n) = Nat.toDigits 10 n :=
  unsigned_of_isDigit fun _ => isDigit_of_mem_toDigits

theorem value_toDigits (n : Nat) : value (Nat.toDigits 10 n) = n := by
  rw [value_of_isDigit fun _ => isDigit_of_mem_toDigits, Nat.ofDigitChars_ten_toDigits]

/-- The shortest numeral of an integer denotes it. -/
theorem value_chars (i : Int) : value (chars i) = i := by
  cases i with
  | ofNat n => exact value_toDigits n
  | negSucc n =>
    show -(Nat.ofDigitChars 10 (Nat.toDigits 10 (n + 1)) 0 : Int) = Int.negSucc n
    rw [Nat.ofDigitChars_ten_toDigits]
    rfl

theorem isNumeral_chars (i : Int) : isNumeral (String.ofList (chars i)) = true := by
  have hunsigned : ∃ n, unsigned (chars i) = Nat.toDigits 10 n := by
    cases i with
    | ofNat n => exact ⟨n, unsigned_toDigits n⟩
    | negSucc n => exact ⟨n + 1, rfl⟩
  obtain ⟨n, hn⟩ := hunsigned
  rw [isNumeral_iff_unsigned, String.toList_ofList, hn]
  exact ⟨Nat.toDigits_ne_nil, fun _ => isDigit_of_mem_toDigits⟩

/-- The numeral of a word is read back. -/
theorem read?_text (w : Word) : read? w.text = some w := by
  rw [read?, Word.text, if_pos (isNumeral_chars _), String.toList_ofList, value_chars,
    Word.ofInt?_toInt]

/-- A numeral is a single atom. -/
theorem isAtom_chars (i : Int) : Lexeme.IsAtom (chars i) := by
  have hmem : ∀ c ∈ chars i, c = '-' ∨ c.isDigit = true := by
    intro c hc
    cases i with
    | ofNat n => exact .inr (isDigit_of_mem_toDigits hc)
    | negSucc n => exact (List.mem_cons.1 hc).imp id isDigit_of_mem_toDigits
  constructor
  case nonempty =>
    cases i with
    | ofNat n => exact Nat.toDigits_ne_nil
    | negSucc n => exact List.cons_ne_nil _ _
  case solid =>
    intro c hc
    rcases hmem c hc with rfl | hc
    · decide
    · exact isDelimiter_of_isDigit hc
  case unquoted =>
    intro hc
    rcases hmem _ (List.mem_of_head? hc) with hc | hc
    · cases hc
    · exact absurd hc (by decide)

end Numeral

end PocketLisp
