import PocketLisp.Value

/-!
# Bindings

The names that one scope binds, with their values.

## Main definitions

- `Bindings` — names with values, in the order in which the names came
- `Bindings.get?`, `Bindings.set` — reading and replacing a value
- `Bindings.ofPairs` — the bindings of names to values given one after another

## Main statements

- `Bindings.get?_set` — what is read after a value was set
-/

namespace PocketLisp

/-- Names with values, in the order in which the names came. -/
abbrev Bindings := List (String × Value)

namespace Bindings

/-- The value of a name. -/
def get? : Bindings → String → Option Value
  | [], _ => none
  | (n, v) :: b, name => if n = name then some v else get? b name

/-- Gives a name a value. A name that is bound keeps its place. -/
def set : Bindings → String → Value → Bindings
  | [], name, value => [(name, value)]
  | (n, v) :: b, name, value =>
    if n = name then (n, value) :: b else (n, v) :: set b name value

/-- The bindings of names to values given one after another: the last value of a name counts. -/
def ofPairs (pairs : List (String × Value)) : Bindings :=
  pairs.foldl (fun b (name, value) => b.set name value) []

/-- The names, in the order in which they came. -/
def names (b : Bindings) : List String := b.map Prod.fst

theorem get?_set (b : Bindings) (name other : String) (value : Value) :
    (b.set name value).get? other = if name = other then some value else b.get? other := by
  induction b with
  | nil => simp [set, get?]
  | cons nv b ih =>
    obtain ⟨n, v⟩ := nv
    simp only [set]
    split
    · next h => subst h; simp only [get?]; split <;> rfl
    · next h =>
      simp only [get?, ih]
      split
      · next h' => subst h'; rw [if_neg (Ne.symm h)]
      · rfl

end Bindings

end PocketLisp
