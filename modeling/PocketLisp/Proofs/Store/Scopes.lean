import PocketLisp.Store

/-!
# Walking through scopes

A name is looked up, and assigned, from a frame outwards to the outermost one.

## Main definitions

- `Store.target` — the frame in which a name is assigned

## Main statements

- `Store.find?_of_root`, `Store.find?_of_bound`, `Store.find?_of_unbound` — one step of a walk
- `Store.target_of_root`, `Store.target_of_bound`, `Store.target_of_unbound` — the same for the
  frame in which a name is assigned
- `Store.assign_eq` — an assignment binds the name in that frame
- `Store.get?_bindings_define` — what a frame binds after a name was bound in a frame
- `Store.find?_congr`, `Store.target_congr` — walks through stores with the same scopes
-/

namespace PocketLisp

/-- Arrays that have elements in the same places are of the same size. -/
theorem size_eq_of_getElem?_eq_none_iff {α β : Type} {xs : Array α} {ys : Array β}
    (h : ∀ i : Nat, xs[i]? = none ↔ ys[i]? = none) : xs.size = ys.size := by
  simp only [Array.getElem?_eq_none_iff] at h
  exact Nat.le_antisymm ((h _).2 (Nat.le_refl _)) ((h _).1 (Nat.le_refl _))

namespace Store

variable {s : Store} {i j p : FrameId} {name other : String} {v w : Value}

/-! ### Frames around a frame -/

theorem parent?_eq (s : Store) (i : FrameId) :
    s.parent? i = (s.frames[i]?.map Frame.parent).bind fun p => p.filter (· < i) := by
  unfold parent?
  cases s.frames[i]? <;> rfl

/-- A new frame is inside the one that it was made in, if that was there before. -/
theorem parent?_newFrame_self (s : Store) (b : Bindings) (parent : Option FrameId) :
    (s.newFrame b parent).2.parent? s.frames.size = parent.filter (· < s.frames.size) := by
  rw [parent?_eq, newFrame, Array.getElem?_push_size]
  rfl

/-- A new frame is around no other one. -/
theorem parent?_newFrame_of_ne {b : Bindings} {parent : Option FrameId}
    (h : i ≠ s.frames.size) : (s.newFrame b parent).2.parent? i = s.parent? i := by
  rw [parent?_eq, parent?_eq, newFrame, Array.getElem?_push, if_neg h]

/-- Stores in which every frame is inside the same one have as many frames. -/
theorem size_eq_of_parents {s' : Store}
    (h : ∀ i : FrameId, s.frames[i]?.map Frame.parent = s'.frames[i]?.map Frame.parent) :
    s.frames.size = s'.frames.size := by
  refine size_eq_of_getElem?_eq_none_iff fun i => ?_
  rw [← Option.map_eq_none_iff, h, Option.map_eq_none_iff]

theorem chain_of_root (h : s.parent? i = none) : s.chain i = [i] := by
  rw [chain]
  split
  · rfl
  · next h' => rw [h] at h'; cases h'

theorem chain_of_parent (h : s.parent? i = some p) : s.chain i = i :: s.chain p := by
  rw [chain]
  split
  · next h' => rw [h] at h'; cases h'
  · next h' =>
    rw [h] at h'
    cases h'
    rfl

theorem chain_ne_nil (s : Store) (i : FrameId) : s.chain i ≠ [] := by
  cases h : s.parent? i with
  | none => rw [chain_of_root h]; exact List.cons_ne_nil _ _
  | some p => rw [chain_of_parent h]; exact List.cons_ne_nil _ _

theorem root_of_root (h : s.parent? i = none) : s.root i = i := by
  rw [root, chain_of_root h]
  rfl

theorem root_of_parent (h : s.parent? i = some p) : s.root i = s.root p := by
  obtain ⟨j, js, hj⟩ := List.exists_cons_of_ne_nil (s.chain_ne_nil p)
  rw [root, root, chain_of_parent h, hj, List.getLastD_cons, List.getLastD_cons, List.getLastD_cons]

/-- Around the outermost frame there is none. -/
theorem parent?_root (s : Store) (i : FrameId) : s.parent? (s.root i) = none := by
  induction i using Nat.strongRecOn with
  | ind i ih =>
    cases h : s.parent? i with
    | none => rw [root_of_root h, h]
    | some p => rw [root_of_parent h, ih p (parent?_lt h)]

theorem root_mem_chain (s : Store) (i : FrameId) : s.root i ∈ s.chain i := by
  rw [root, List.getLastD_eq_getLast?, List.getLast?_eq_some_getLast (s.chain_ne_nil i)]
  exact List.getLast_mem _

/-! ### Looking a name up -/

theorem find?_of_root (h : s.parent? i = none) :
    s.find? i name = ((s.bindings i).get? name).map (i, ·) := by
  rw [find?, chain_of_root h, List.findSome?_cons, List.findSome?_nil]
  cases (s.bindings i).get? name with
  | none => rfl
  | some v => rfl

theorem find?_of_bound (h : (s.bindings i).get? name = some v) : s.find? i name = some (i, v) := by
  cases hp : s.parent? i with
  | none => rw [find?_of_root hp, h]; rfl
  | some p => rw [find?, chain_of_parent hp, List.findSome?_cons, h]; rfl

theorem find?_of_unbound (hp : s.parent? i = some p) (h : (s.bindings i).get? name = none) :
    s.find? i name = s.find? p name := by
  rw [find?, chain_of_parent hp, List.findSome?_cons, h]
  rfl

/-- A name that is not found is bound in no frame of the scope, the outermost one included. -/
theorem get?_root_of_find?_eq_none (h : s.find? i name = none) :
    (s.bindings (s.root i)).get? name = none := by
  have hnone := List.findSome?_eq_none_iff.1 h (s.root i) (s.root_mem_chain i)
  exact Option.map_eq_none_iff.1 hnone

/-- The value that is read is the one that is found, or else the empty list. -/
theorem lookup_fst (s : Store) (i : FrameId) (name : String) :
    (s.lookup i name).1 = (s.get? i name).getD .nil := by
  unfold lookup
  split
  · next h => rw [h]; rfl
  · next h => rw [h]; rfl

/-! ### Assigning a name -/

/-- The frame in which a name is assigned: the innermost one of the scope that binds it, or else the
outermost. -/
def target (s : Store) (i : FrameId) (name : String) : FrameId :=
  match s.find? i name with
  | some (j, _) => j
  | none => s.root i

theorem assign_eq (s : Store) (i : FrameId) (name : String) (v : Value) :
    s.assign i name v = s.define (s.target i name) name v := by
  unfold assign target
  cases s.find? i name <;> rfl

theorem lookup_of_some (h : s.get? i name = some v) : s.lookup i name = (v, s) := by
  unfold lookup
  rw [h]

/-- A name without a value is assigned the empty list. -/
theorem lookup_of_none (h : s.get? i name = none) :
    s.lookup i name = (.nil, s.assign i name .nil) := by
  unfold lookup assign
  rw [h, Option.map_eq_none_iff.1 h]

theorem target_of_root (h : s.parent? i = none) : s.target i name = i := by
  rw [target, find?_of_root h, root_of_root h]
  cases (s.bindings i).get? name <;> rfl

theorem target_of_bound (h : (s.bindings i).get? name = some v) : s.target i name = i := by
  rw [target, find?_of_bound h]

theorem target_of_unbound (hp : s.parent? i = some p) (h : (s.bindings i).get? name = none) :
    s.target i name = s.target p name := by
  rw [target, target, find?_of_unbound hp h, root_of_parent hp]

/-! ### Binding a name -/

/-- What a frame binds after a name was bound in a frame. -/
theorem get?_bindings_define (hi : i < s.frames.size) :
    ((s.define i name v).bindings j).get? other =
      if i = j ∧ name = other then some v else (s.bindings j).get? other := by
  rw [bindings_define s i j name v hi]
  by_cases hj : i = j
  · rw [if_pos hj, Bindings.get?_set]
    simp only [hj, true_and]
  · rw [if_neg hj, if_neg fun h => hj h.1]

/-- Binding a name leaves every frame inside the one that it was in. -/
theorem map_parent_define (s : Store) (i j : FrameId) (name : String) (v : Value) :
    (s.define i name v).frames[j]?.map Frame.parent = s.frames[j]?.map Frame.parent := by
  rw [define, Array.getElem?_modify]
  split
  · rw [Option.map_map]
    rfl
  · rfl

/-! ### Two stores with the same scopes -/

section

variable {s' : Store}

/-- Frames made in two stores whose frames are inside the same ones. -/
theorem map_parent_newFrame
    (h : ∀ i : FrameId, s'.frames[i]?.map Frame.parent = s.frames[i]?.map Frame.parent)
    (b b' : Bindings) (parent : Option FrameId) (i : FrameId) :
    (s'.newFrame b' parent).2.frames[i]?.map Frame.parent =
      (s.newFrame b parent).2.frames[i]?.map Frame.parent := by
  rw [newFrame, newFrame, Array.getElem?_push, Array.getElem?_push, size_eq_of_parents h]
  split
  · rfl
  · exact h i

/-- A scope is made up of the same frames. -/
theorem chain_congr (h : ∀ i, s'.parent? i = s.parent? i) (i : FrameId) :
    s'.chain i = s.chain i := by
  induction i using Nat.strongRecOn with
  | ind i ih =>
    cases hp : s.parent? i with
    | none => rw [chain_of_root hp, chain_of_root ((h i).trans hp)]
    | some p => rw [chain_of_parent hp, chain_of_parent ((h i).trans hp), ih p (parent?_lt hp)]

/-- A name that all frames bind to the same value is found in the same way. -/
theorem find?_congr (h : ∀ i, s'.parent? i = s.parent? i)
    (hname : ∀ j, (s'.bindings j).get? name = (s.bindings j).get? name) (i : FrameId) :
    s'.find? i name = s.find? i name := by
  simp only [find?, chain_congr h, hname]

/-- It is also assigned in the same frame. -/
theorem target_congr (h : ∀ i, s'.parent? i = s.parent? i)
    (hname : ∀ j, (s'.bindings j).get? name = (s.bindings j).get? name) (i : FrameId) :
    s'.target i name = s.target i name := by
  rw [target, target, find?_congr h hname, root, root, chain_congr h]

end

end Store

end PocketLisp
