/-!
# Lines of a text

A text is cut after each of its line ends; the last piece may lack one.

## Main definitions

- `splitAfter` — the pieces of a list, each but the last ended by a given element
- `decodeUtf8` — the text of bytes that may end inside a character

## Main statements

- `flatten_splitAfter` — the pieces are the list, cut
- `ne_nil_of_mem_splitAfter` — no piece is empty
-/

namespace PocketLisp

/-- The pieces of a list, cut after every element that equals `stop`. -/
def splitAfter {α : Type} [BEq α] (stop : α) (xs : List α) : List (List α) :=
  xs.foldr (fun x pieces =>
    if x == stop then [x] :: pieces
    else match pieces with
      | [] => [[x]]
      | piece :: rest => (x :: piece) :: rest) []

section
variable {α : Type} [BEq α] {stop : α}

theorem flatten_splitAfter (xs : List α) : (splitAfter stop xs).flatten = xs := by
  induction xs with
  | nil => rfl
  | cons x xs ih =>
    simp only [splitAfter, List.foldr_cons] at ih ⊢
    split
    · simp [ih]
    · split
      · next h => simp_all
      · next h => simp_all

theorem ne_nil_of_mem_splitAfter {xs piece : List α} (h : piece ∈ splitAfter stop xs) :
    piece ≠ [] := by
  induction xs generalizing piece with
  | nil => cases h
  | cons x xs ih =>
    simp only [splitAfter, List.foldr_cons] at h ih
    split at h
    · rcases List.mem_cons.1 h with rfl | h
      · simp
      · exact ih h
    · split at h
      · simp_all
      · next heq =>
        rcases List.mem_cons.1 h with rfl | h
        · simp
        · exact ih (by rw [heq]; exact List.mem_cons_of_mem _ h)

end

/-- The text of bytes in UTF-8. When the bytes end inside a character, the replacement character
stands for what there is of it. -/
def decodeUtf8 (bytes : ByteArray) : String :=
  match String.fromUTF8? bytes with
  | some text => text
  | none =>
    let cuts := [1, 2, 3].filterMap fun n => String.fromUTF8? (bytes.extract 0 (bytes.size - n))
    (cuts.head?.getD "").push (Char.ofNat 0xFFFD)

end PocketLisp
