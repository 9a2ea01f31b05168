/-!
# Signed 64-bit integers

The numbers of the language. Arithmetic is exact: it is done in the integers, and a result
outside the 64-bit range is refused, never wrapped.

## Main definitions

- `Word` — a signed 64-bit integer
- `Word.ofInt?` — the word that an integer denotes, if it is in range
- `Word.InRange` — the integers that are the value of a word

## Main statements

- `Word.ofInt?_eq_some_iff` — an accepted integer is the value of its word
- `Word.ofInt?_eq_none_iff` — refused are exactly the integers out of range
-/

namespace PocketLisp

/-- A number of the language: a signed 64-bit integer. -/
abbrev Word := Int64

namespace Word

/-- The word whose value is `i`, or nothing when `i` lies outside the 64-bit range. -/
def ofInt? (i : Int) : Option Word :=
  if -0x8000000000000000 ≤ i ∧ i ≤ 0x7FFFFFFFFFFFFFFF then some (Int64.ofInt i) else none

theorem ofInt?_eq_some_iff {i : Int} {w : Word} : ofInt? i = some w ↔ w.toInt = i := by
  constructor
  · intro h
    unfold ofInt? at h
    split at h
    · next hrange =>
      cases h
      exact Int64.toInt_ofInt_of_le (by omega) (by omega)
    · cases h
  · rintro rfl
    have hlow := w.le_toInt
    have hhigh := w.toInt_lt
    rw [ofInt?, if_pos (by omega), Int64.ofInt_toInt]

theorem ofInt?_eq_none_iff {i : Int} :
    ofInt? i = none ↔ i < -0x8000000000000000 ∨ 0x7FFFFFFFFFFFFFFF < i := by
  by_cases hrange : -0x8000000000000000 ≤ i ∧ i ≤ 0x7FFFFFFFFFFFFFFF
  · rw [ofInt?, if_pos hrange]
    simp only [reduceCtorEq, false_iff]
    omega
  · rw [ofInt?, if_neg hrange]
    simp only [true_iff]
    omega

/-- The integers that are the value of a word. -/
def InRange (i : Int) : Prop := -0x8000000000000000 ≤ i ∧ i ≤ 0x7FFFFFFFFFFFFFFF

theorem inRange_toInt (w : Word) : InRange w.toInt := by
  have hlow := w.le_toInt
  have hhigh := w.toInt_lt
  constructor <;> omega

theorem ofInt?_of_not_inRange {i : Int} (h : ¬ InRange i) : ofInt? i = none := by
  rw [ofInt?_eq_none_iff]
  unfold InRange at h
  omega

theorem exists_ofInt?_of_inRange {i : Int} (h : InRange i) : ∃ w : Word, ofInt? i = some w :=
  ⟨Int64.ofInt i, if_pos h⟩

theorem ofInt?_toInt (w : Word) : ofInt? w.toInt = some w :=
  ofInt?_eq_some_iff.2 rfl

end Word

end PocketLisp
