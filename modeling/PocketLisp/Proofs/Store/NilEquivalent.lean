import PocketLisp.Proofs.Store.Contents
import PocketLisp.Proofs.Store.Scopes

/-!
# Stores that differ in unbound names

Reading a name that nothing binds binds it to the empty list in the outermost frame. A store in
which that has happened cannot be told from one in which it has not: every name has the same value,
and is assigned in the same frame.

## Main definitions

- `Store.NilEquivalent` — stores of which one may bind names to the empty list that the other leaves
  unbound
- `Store.readAll` — reads several names

## Main statements

- `Store.NilEquivalent.walk` — a name is assigned in the same frame, and has the same value
- `Store.nilEquivalent_lookup` — reading a name gives such a store
- `Store.NilEquivalent.lookup`, `Store.NilEquivalent.assign`, `Store.NilEquivalent.newFrame`,
  `Store.NilEquivalent.newClosure` — the operations on stores keep them so
-/

namespace PocketLisp

namespace Store

/-- The same closures and the same frames inside the same frames, with the same bindings, except
that an outermost frame may bind a name to the empty list in the one store and leave it unbound in
the other. -/
structure NilEquivalent (s s' : Store) : Prop where
  closures : s.closures = s'.closures
  parents : ∀ i : FrameId, s.frames[i]?.map Frame.parent = s'.frames[i]?.map Frame.parent
  bound : ∀ i name, (s.bindings i).get? name = (s'.bindings i).get? name ∨
    s.parent? i = none ∧
      ((s.bindings i).get? name = none ∧ (s'.bindings i).get? name = some .nil ∨
        (s.bindings i).get? name = some .nil ∧ (s'.bindings i).get? name = none)

/-- Reads several names, each in a scope. -/
def readAll (s : Store) (reads : List (FrameId × String)) : Store :=
  reads.foldl (fun s (i, name) => (s.lookup i name).2) s

variable {s s' s'' : Store} {i j : FrameId} {name : String} {v : Value}

namespace NilEquivalent

/-- Where one of two optional values may be missing if the other is the empty list, it is enough to
compare them with the empty list for a missing one. -/
theorem bound_iff {p : Prop} {a b : Option Value} :
    (a = b ∨ p ∧ (a = none ∧ b = some .nil ∨ a = some .nil ∧ b = none)) ↔
      a.getD .nil = b.getD .nil ∧ (¬ p → a = b) := by
  constructor
  · rintro (rfl | ⟨hp, ⟨rfl, rfl⟩ | ⟨rfl, rfl⟩⟩)
    · exact ⟨rfl, fun _ => rfl⟩
    · exact ⟨rfl, fun hn => absurd hp hn⟩
    · exact ⟨rfl, fun hn => absurd hp hn⟩
  · rintro ⟨hget, heq⟩
    by_cases hp : p
    · cases a <;> cases b <;> simp_all
    · exact .inl (heq hp)

theorem parent? (h : s.NilEquivalent s') (i : FrameId) : s.parent? i = s'.parent? i := by
  rw [parent?_eq, parent?_eq, h.parents]

theorem size (h : s.NilEquivalent s') : s.frames.size = s'.frames.size :=
  size_eq_of_parents h.parents

theorem refl (s : Store) : s.NilEquivalent s := ⟨rfl, fun _ => rfl, fun _ _ => .inl rfl⟩

theorem symm (h : s.NilEquivalent s') : s'.NilEquivalent s where
  closures := h.closures.symm
  parents i := (h.parents i).symm
  bound i name := by
    obtain ⟨hget, heq⟩ := bound_iff.1 (h.bound i name)
    rw [h.parent?] at heq
    exact bound_iff.2 ⟨hget.symm, fun hp => (heq hp).symm⟩

theorem trans (h : s.NilEquivalent s') (h' : s'.NilEquivalent s'') : s.NilEquivalent s'' where
  closures := h.closures.trans h'.closures
  parents i := (h.parents i).trans (h'.parents i)
  bound i name := by
    obtain ⟨hget, heq⟩ := bound_iff.1 (h.bound i name)
    obtain ⟨hget', heq'⟩ := bound_iff.1 (h'.bound i name)
    rw [← h.parent?] at heq'
    exact bound_iff.2 ⟨hget.trans hget', fun hp => (heq hp).trans (heq' hp)⟩

/-! ### Reading and assigning variables -/

/-- Every name is assigned in the same frame, and has the same value. -/
theorem walk (h : s.NilEquivalent s') (i : FrameId) (name : String) :
    s.target i name = s'.target i name ∧
      (s.get? i name).getD .nil = (s'.get? i name).getD .nil := by
  induction i using Nat.strongRecOn with
  | ind i ih =>
    obtain ⟨hget, heq⟩ := bound_iff.1 (h.bound i name)
    cases hp : s.parent? i with
    | none =>
      have hp' : s'.parent? i = none := h.parent? i ▸ hp
      rw [target_of_root hp, target_of_root hp', Store.get?, Store.get?, find?_of_root hp,
        find?_of_root hp', Option.map_map, Option.map_map]
      simpa [Function.comp_def] using hget
    | some p =>
      have hp' : s'.parent? i = some p := h.parent? i ▸ hp
      -- An inner frame binds the same names in both stores.
      have hsame := heq (by simp [hp])
      cases hb : (s.bindings i).get? name with
      | some v =>
        have hb' : (s'.bindings i).get? name = some v := hsame ▸ hb
        rw [target_of_bound hb, target_of_bound hb', Store.get?, Store.get?, find?_of_bound hb,
          find?_of_bound hb']
        exact ⟨rfl, rfl⟩
      | none =>
        have hb' : (s'.bindings i).get? name = none := hsame ▸ hb
        rw [target_of_unbound hp hb, target_of_unbound hp' hb', Store.get?, Store.get?,
          find?_of_unbound hp hb, find?_of_unbound hp' hb']
        exact ih p (parent?_lt hp)

theorem define (h : s.NilEquivalent s') (i : FrameId) (name : String) (v : Value) :
    (s.define i name v).NilEquivalent (s'.define i name v) where
  closures := h.closures
  parents j := by rw [map_parent_define, map_parent_define, h.parents]
  bound j other := by
    by_cases hi : i < s.frames.size
    · have hi' : i < s'.frames.size := h.size ▸ hi
      rw [get?_bindings_define hi, get?_bindings_define hi', parent?_define]
      split
      · exact .inl rfl
      · exact h.bound j other
    · rw [define_of_size_le (Nat.not_lt.1 hi), define_of_size_le (h.size ▸ Nat.not_lt.1 hi)]
      exact h.bound j other

theorem assign (h : s.NilEquivalent s') (i : FrameId) (name : String) (v : Value) :
    (s.assign i name v).NilEquivalent (s'.assign i name v) := by
  rw [assign_eq, assign_eq, (h.walk i name).1]
  exact h.define _ name v

end NilEquivalent

theorem nilEquivalent_define (hp : s.parent? i = none) (h : (s.bindings i).get? name = none) :
    s.NilEquivalent (s.define i name .nil) where
  closures := rfl
  parents j := (map_parent_define s i j name .nil).symm
  bound j other := by
    by_cases hi : i < s.frames.size
    · rw [get?_bindings_define hi]
      split
      · next hj =>
        obtain ⟨rfl, rfl⟩ := hj
        exact .inr ⟨hp, .inl ⟨h, rfl⟩⟩
      · exact .inl rfl
    · rw [define_of_size_le (Nat.not_lt.1 hi)]
      exact .inl rfl

/-- Reading a name changes nothing that matters. -/
theorem nilEquivalent_lookup (s : Store) (i : FrameId) (name : String) :
    s.NilEquivalent (s.lookup i name).2 := by
  unfold lookup
  split
  · exact .refl s
  · next h =>
    exact nilEquivalent_define (parent?_root s i)
      (get?_root_of_find?_eq_none (Option.map_eq_none_iff.1 h))

theorem nilEquivalent_readAll (s : Store) (reads : List (FrameId × String)) :
    s.NilEquivalent (s.readAll reads) := by
  induction reads generalizing s with
  | nil => exact .refl s
  | cons r reads ih => exact (nilEquivalent_lookup s r.1 r.2).trans (ih _)

namespace NilEquivalent

theorem lookup (h : s.NilEquivalent s') (i : FrameId) (name : String) :
    (s.lookup i name).1 = (s'.lookup i name).1 ∧
      (s.lookup i name).2.NilEquivalent (s'.lookup i name).2 := by
  constructor
  · rw [lookup_fst, lookup_fst]
    exact (h.walk i name).2
  · exact ((nilEquivalent_lookup s i name).symm.trans h).trans (nilEquivalent_lookup s' i name)

/-! ### Making frames and closures -/

theorem newFrame (h : s.NilEquivalent s') (b : Bindings) (parent : Option FrameId) :
    (s.newFrame b parent).1 = (s'.newFrame b parent).1 ∧
      (s.newFrame b parent).2.NilEquivalent (s'.newFrame b parent).2 := by
  refine ⟨h.size, h.closures, map_parent_newFrame h.parents b b parent, fun i name => ?_⟩
  rw [bindings_newFrame, bindings_newFrame, h.size]
  split
  · exact .inl rfl
  · next hi =>
    rw [parent?_newFrame_of_ne (h.size ▸ hi)]
    exact h.bound i name

theorem newClosure (h : s.NilEquivalent s') (formals : List String) (body : Expr)
    (scope : FrameId) :
    (s.newClosure formals body scope).1 = (s'.newClosure formals body scope).1 ∧
      (s.newClosure formals body scope).2.NilEquivalent
        (s'.newClosure formals body scope).2 := by
  simp only [Store.newClosure, h.closures, true_and]
  exact ⟨rfl, h.parents, h.bound⟩

end NilEquivalent

end Store

end PocketLisp
