/-!
# Sets of characters

A set of characters is given by the ranges of code points that it consists of.

## Main definitions

- `Ranges` — inclusive ranges of code points
- `Ranges.contains` — whether a character lies in one of them
- `Ranges.count` — how many code points they hold together
- `Ranges.Increasing` — each range ends before the next one begins
-/

namespace PocketLisp

/-- Inclusive ranges of code points. -/
abbrev Ranges := List (Nat × Nat)

namespace Ranges

/-- Whether a character lies in one of the ranges. -/
def contains (rs : Ranges) (c : Char) : Bool :=
  rs.any fun (low, high) => low ≤ c.toNat && c.toNat ≤ high

/-- How many code points the ranges hold, if no two of them overlap. -/
def count (rs : Ranges) : Nat :=
  rs.foldr (fun (low, high) n => high + 1 - low + n) 0

/-- Each range ends before the next one begins. -/
abbrev Increasing (rs : Ranges) : Prop :=
  ∀ p ∈ rs.zip rs.tail, p.1.2 < p.2.1

end Ranges

end PocketLisp
