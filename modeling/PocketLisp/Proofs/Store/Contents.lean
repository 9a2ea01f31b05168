import PocketLisp.Store

/-!
# What a store holds

## Main definitions

- `Store.Binds` — some frame binds a name to the value

## Main statements

- `Store.binds_define`, `Store.binds_newFrame`, `Store.binds_assign`, `Store.binds_lookup` — what
  is bound after an operation was bound before, or was given to the operation
-/

namespace PocketLisp

namespace Bindings

variable {b : Bindings} {name : String} {value : Value} {p : String × Value}

theorem mem_of_get? (h : b.get? name = some value) : (name, value) ∈ b := by
  induction b with
  | nil => cases h
  | cons nv b ih =>
    simp only [get?] at h
    split at h
    · next heq => cases heq; cases h; exact List.mem_cons_self
    · exact List.mem_cons_of_mem _ (ih h)

theorem mem_of_mem_set (h : p ∈ b.set name value) : p ∈ b ∨ p = (name, value) := by
  induction b with
  | nil => exact .inr (List.mem_singleton.1 h)
  | cons nv b ih =>
    simp only [set] at h
    split at h
    · next heq =>
      cases heq
      rcases List.mem_cons.1 h with rfl | h
      · exact .inr rfl
      · exact .inl (List.mem_cons_of_mem _ h)
    · rcases List.mem_cons.1 h with rfl | h
      · exact .inl List.mem_cons_self
      · exact (ih h).imp_left (List.mem_cons_of_mem _)

theorem mem_of_mem_foldl_set {pairs : List (String × Value)}
    (h : p ∈ pairs.foldl (fun b (name, value) => b.set name value) b) : p ∈ b ∨ p ∈ pairs := by
  induction pairs generalizing b with
  | nil => exact .inl h
  | cons nv pairs ih =>
    rcases ih h with h | h
    · rcases mem_of_mem_set h with h | rfl
      · exact .inl h
      · exact .inr List.mem_cons_self
    · exact .inr (List.mem_cons_of_mem _ h)

theorem mem_of_mem_ofPairs {pairs : List (String × Value)} (h : p ∈ ofPairs pairs) :
    p ∈ pairs := by
  rcases mem_of_mem_foldl_set h with h | h
  · cases h
  · exact h

end Bindings

namespace Store

/-- Some frame binds a name to the value. -/
def Binds (s : Store) (v : Value) : Prop := ∃ i name, (name, v) ∈ s.bindings i

variable {s s' : Store} {i j : FrameId} {name : String} {v w : Value}

/-- Binding a name in a frame that is not there changes nothing. -/
theorem define_of_size_le (h : s.frames.size ≤ i) : s.define i name v = s := by
  rw [define, Array.modify, Array.modifyM, dif_neg (Nat.not_lt.2 h)]
  rfl

theorem mem_bindings_define {p : String × Value} (h : p ∈ (s.define i name v).bindings j) :
    p ∈ s.bindings j ∨ p = (name, v) := by
  by_cases hi : i < s.frames.size
  · rw [bindings_define s i j name v hi] at h
    split at h
    · exact Bindings.mem_of_mem_set h
    · exact .inl h
  · rw [define_of_size_le (Nat.not_lt.1 hi)] at h
    exact .inl h

theorem binds_define (h : (s.define i name v).Binds w) : s.Binds w ∨ w = v := by
  obtain ⟨j, n, h⟩ := h
  rcases mem_bindings_define h with h | h
  · exact .inl ⟨j, n, h⟩
  · cases h
    exact .inr rfl

theorem bindings_newFrame (b : Bindings) (parent : Option FrameId) :
    (s.newFrame b parent).2.bindings j = if j = s.frames.size then b else s.bindings j := by
  by_cases h : j = s.frames.size <;> simp [newFrame, bindings, Array.getElem?_push, h]

theorem binds_newFrame {b : Bindings} {parent : Option FrameId}
    (h : (s.newFrame b parent).2.Binds w) : s.Binds w ∨ ∃ name, (name, w) ∈ b := by
  obtain ⟨j, n, h⟩ := h
  rw [bindings_newFrame] at h
  split at h
  · exact .inr ⟨n, h⟩
  · exact .inl ⟨j, n, h⟩

theorem binds_of_find? (h : s.find? i name = some (j, v)) : s.Binds v := by
  obtain ⟨k, -, hk⟩ := List.exists_of_findSome?_eq_some h
  obtain ⟨w, hw, heq⟩ := Option.map_eq_some_iff.1 hk
  cases heq
  exact ⟨j, name, Bindings.mem_of_get? hw⟩

theorem binds_of_get? (h : s.get? i name = some v) : s.Binds v := by
  obtain ⟨⟨j, w⟩, hj, rfl⟩ := Option.map_eq_some_iff.1 h
  exact binds_of_find? hj

/-! ### Reading and assigning variables -/

theorem closures_assign : (s.assign i name v).closures = s.closures := by
  unfold assign
  split <;> rfl

theorem binds_assign (h : (s.assign i name v).Binds w) : s.Binds w ∨ w = v := by
  unfold assign at h
  split at h <;> exact binds_define h

theorem closures_lookup (h : s.lookup i name = (v, s')) : s'.closures = s.closures := by
  unfold lookup at h
  split at h <;> cases h <;> rfl

/-- A variable has a bound value, or none and then the empty list. -/
theorem binds_lookup (h : s.lookup i name = (v, s')) :
    (s.Binds v ∨ v = .nil) ∧ ∀ w, s'.Binds w → s.Binds w ∨ w = .nil := by
  unfold lookup at h
  split at h
  · next hget =>
    cases h
    exact ⟨.inl (binds_of_get? hget), fun w hw => .inl hw⟩
  · cases h
    exact ⟨.inr rfl, fun w hw => binds_define hw⟩

end Store

end PocketLisp
