import PocketLisp.Proofs.Store.Contents
import PocketLisp.Proofs.Store.Shape

/-!
# Stores without some empty frames

A frame that binds nothing and never will is the same as the frame around it. The frames of a store
are placed in another one that has no such frames, where each of them is represented by the frame
around it. Walks in both stores end with the same values in frames that correspond.

## Main definitions

- `Placement` — which frames are left out, and where the others are
- `Placement.leaveOut` — one more frame is left out
- `Store.Collapses` — a store, and one without the frames that are left out

## Main statements

- `Store.Collapses.walk` — a name is found with the same value, and assigned in corresponding frames
- `Store.Collapses.lookup`, `Store.Collapses.assign`, `Store.Collapses.newClosure`,
  `Store.Collapses.newFrame` — the operations on both stores keep them so
- `Store.Collapses.leaveOut` — an empty frame that is made in the one store alone can be left out
-/

namespace PocketLisp

/-- Where the frames of a store are in a store that leaves some of them out. -/
structure Placement where
  place : FrameId → FrameId
  omitted : FrameId → Prop
  inj : ∀ {i j}, ¬ omitted i → ¬ omitted j → place i = place j → i = j

namespace Placement

/-- Nothing is left out. -/
protected def id : Placement := ⟨fun i => i, fun _ => False, fun _ _ h => h⟩

/-- The number that a frame would have, had the frame `n` not been made. -/
def without (n i : FrameId) : FrameId := if i < n then i else i - 1

theorem without_of_lt {n i : FrameId} (h : i < n) : without n i = i := if_pos h

theorem without_of_gt {n i : FrameId} (h : n < i) : without n i = i - 1 :=
  if_neg (Nat.lt_asymm h)

theorem without_inj {n i j : FrameId} (hi : i ≠ n) (hj : j ≠ n) (h : without n i = without n j) :
    i = j := by
  rcases Nat.lt_or_gt_of_ne hi with hi | hi <;> rcases Nat.lt_or_gt_of_ne hj with hj | hj
  · rwa [without_of_lt hi, without_of_lt hj] at h
  · rw [without_of_lt hi, without_of_gt hj] at h
    exact absurd hi (by rw [h]; exact Nat.not_lt.2 (Nat.le_sub_one_of_lt hj))
  · rw [without_of_gt hi, without_of_lt hj] at h
    exact absurd hj (by rw [← h]; exact Nat.not_lt.2 (Nat.le_sub_one_of_lt hi))
  · rw [without_of_gt hi, without_of_gt hj] at h
    exact Nat.sub_one_cancel (Nat.zero_lt_of_lt hi) (Nat.zero_lt_of_lt hj) h

/-- The frame `n` is left out as well, with `outer` in its place. -/
def leaveOut (P : Placement) (n outer : FrameId) : Placement where
  place i := if i = n then P.place outer else P.place (without n i)
  omitted i := i = n ∨ P.omitted (without n i)
  inj {i j} hi hj h := by
    obtain ⟨hin, hi⟩ := not_or.1 hi
    obtain ⟨hjn, hj⟩ := not_or.1 hj
    rw [if_neg hin, if_neg hjn] at h
    exact without_inj hin hjn (P.inj hi hj h)

variable {P : Placement} {n outer i : FrameId}

theorem place_leaveOut_self : (P.leaveOut n outer).place n = P.place outer := if_pos rfl

theorem place_leaveOut_of_ne (h : i ≠ n) :
    (P.leaveOut n outer).place i = P.place (without n i) := if_neg h

theorem place_leaveOut_of_lt (h : i < n) : (P.leaveOut n outer).place i = P.place i := by
  rw [place_leaveOut_of_ne (Nat.ne_of_lt h), without_of_lt h]

theorem omitted_leaveOut_of_lt (h : i < n) :
    (P.leaveOut n outer).omitted i ↔ P.omitted i := by
  have homitted : (P.leaveOut n outer).omitted i ↔ i = n ∨ P.omitted (without n i) := Iff.rfl
  rw [homitted, without_of_lt h, or_iff_right (Nat.ne_of_lt h)]

theorem place_leaveOut_of_gt (h : n < i) : (P.leaveOut n outer).place i = P.place (i - 1) := by
  rw [place_leaveOut_of_ne (Nat.ne_of_gt h), without_of_gt h]

end Placement

/-- The closure made in the frame that corresponds. -/
def Closure.place (P : Placement) (c : Closure) : Closure := { c with scope := P.place c.scope }

namespace Store

variable {P : Placement} {s s' : Store} {i : FrameId} {name : String} {v : Value}

theorem bindings_of_size_le (h : s.frames.size ≤ i) : s.bindings i = [] := by
  rw [bindings, Array.getElem?_eq_none h]

theorem parent?_of_size_le (h : s.frames.size ≤ i) : s.parent? i = none := by
  rw [parent?, Array.getElem?_eq_none h]

/-- The second store has all frames of the first but those that are left out, and the same closures,
made in the frames that correspond. What is left out binds nothing. Frames to come have places in
the same order. -/
structure Collapses (P : Placement) (s s' : Store) : Prop where
  old : ∀ i < s.frames.size, P.place i < s'.frames.size
  new : ∀ k, P.place (s.frames.size + k) = s'.frames.size + k
  omitted : ∀ i, P.omitted i → i < s.frames.size ∧ s.bindings i = [] ∧
    ∃ p, s.parent? i = some p ∧ P.place p = P.place i
  kept : ∀ i, ¬ P.omitted i → s'.bindings (P.place i) = s.bindings i ∧
    s'.parent? (P.place i) = (s.parent? i).map P.place
  closure : ∀ id : ClosureId, s'.closures[id]? = s.closures[id]?.map (Closure.place P)

/-- At first nothing is left out. -/
theorem collapses_id (s : Store) : s.Collapses .id s where
  old _ h := h
  new _ := rfl
  omitted _ h := h.elim
  kept _ _ := ⟨rfl, Option.map_id'.symm⟩
  closure _ := Option.map_id'.symm

namespace Collapses

theorem place_size (h : s.Collapses P s') : P.place s.frames.size = s'.frames.size := h.new 0

theorem size_le_place (h : s.Collapses P s') (hi : s.frames.size ≤ i) :
    s'.frames.size ≤ P.place i := by
  obtain ⟨k, rfl⟩ := Nat.exists_eq_add_of_le hi
  rw [h.new]
  exact Nat.le_add_right _ _

theorem place_lt_iff (h : s.Collapses P s') : P.place i < s'.frames.size ↔ i < s.frames.size := by
  constructor
  · intro hlt
    exact Nat.lt_of_not_le fun hle => Nat.not_lt.2 (h.size_le_place hle) hlt
  · exact h.old i

theorem not_omitted_of_size_le (h : s.Collapses P s') (hi : s.frames.size ≤ i) :
    ¬ P.omitted i :=
  fun homitted => Nat.not_lt.2 hi (h.omitted i homitted).1

/-! ### Reading and assigning variables -/

/-- Walks from frames that correspond find the same value, and end with assignments in frames that
correspond, which are not left out. -/
theorem walk (h : s.Collapses P s') (i : FrameId) (name : String) :
    s'.get? (P.place i) name = s.get? i name ∧
      s'.target (P.place i) name = P.place (s.target i name) ∧
      ¬ P.omitted (s.target i name) := by
  induction i using Nat.strongRecOn with
  | ind i ih =>
    by_cases hi : P.omitted i
    · -- From a frame that is left out, the walk goes on to the frame around it.
      obtain ⟨-, hempty, p, hp, hplace⟩ := h.omitted i hi
      have hunbound : (s.bindings i).get? name = none := by rw [hempty]; rfl
      rw [← hplace, get?, get?, find?_of_unbound hp hunbound, target_of_unbound hp hunbound]
      exact ih p (parent?_lt hp)
    · obtain ⟨hbindings, hparent⟩ := h.kept i hi
      cases hb : (s.bindings i).get? name with
      | some v =>
        have hb' := hbindings ▸ hb
        rw [get?, get?, find?_of_bound hb, find?_of_bound hb', target_of_bound hb,
          target_of_bound hb']
        exact ⟨rfl, rfl, hi⟩
      | none =>
        have hb' := hbindings ▸ hb
        cases hp : s.parent? i with
        | none =>
          rw [hp, Option.map_none] at hparent
          rw [get?, get?, find?_of_root hp, find?_of_root hparent, hb, hb', target_of_root hp,
            target_of_root hparent]
          exact ⟨rfl, rfl, hi⟩
        | some p =>
          rw [hp, Option.map_some] at hparent
          rw [get?, get?, find?_of_unbound hp hb, find?_of_unbound hparent hb',
            target_of_unbound hp hb, target_of_unbound hparent hb']
          exact ih p (parent?_lt hp)

/-- Binding a name in frames that correspond. -/
theorem define (h : s.Collapses P s') (hi : ¬ P.omitted i) (name : String) (v : Value) :
    (s.define i name v).Collapses P (s'.define (P.place i) name v) := by
  by_cases hlt : i < s.frames.size
  · have hlt' := h.old i hlt
    constructor
    case old => simpa using h.old
    case new => simpa using h.new
    case omitted =>
      intro j hj
      have hne : i ≠ j := fun heq => hi (heq ▸ hj)
      rw [size_define, bindings_define _ _ _ _ _ hlt, if_neg hne, parent?_define]
      exact h.omitted j hj
    case kept =>
      intro j hj
      obtain ⟨hbindings, hparent⟩ := h.kept j hj
      -- Frames that are kept have places of their own, so one frame changes in either store.
      have hplace : P.place i = P.place j ↔ i = j := ⟨P.inj hi hj, congrArg P.place⟩
      rw [bindings_define _ _ _ _ _ hlt, bindings_define _ _ _ _ _ hlt', parent?_define,
        parent?_define, hbindings]
      simp only [hplace]
      exact ⟨trivial, hparent⟩
    case closure => exact h.closure
  · have hle := Nat.not_lt.1 hlt
    rw [define_of_size_le hle, define_of_size_le (h.size_le_place hle)]
    exact h

theorem assign (h : s.Collapses P s') (i : FrameId) (name : String) (v : Value) :
    (s.assign i name v).Collapses P (s'.assign (P.place i) name v) := by
  obtain ⟨-, htarget, hkept⟩ := h.walk i name
  rw [assign_eq, assign_eq, htarget]
  exact h.define hkept name v

theorem lookup (h : s.Collapses P s') (i : FrameId) (name : String) :
    (s.lookup i name).1 = (s'.lookup (P.place i) name).1 ∧
      (s.lookup i name).2.Collapses P (s'.lookup (P.place i) name).2 := by
  have hget := (h.walk i name).1
  cases hv : s.get? i name with
  | some v =>
    rw [lookup_of_some hv, lookup_of_some (hget.trans hv)]
    exact ⟨rfl, h⟩
  | none =>
    rw [lookup_of_none hv, lookup_of_none (hget.trans hv)]
    exact ⟨rfl, h.assign i name .nil⟩

/-! ### Making frames and closures -/

theorem size_closures (h : s.Collapses P s') : s'.closures.size = s.closures.size :=
  size_eq_of_getElem?_eq_none_iff fun id => by rw [h.closure, Option.map_eq_none_iff]

/-- Making closures in frames that correspond. -/
theorem newClosure (h : s.Collapses P s') (formals : List String) (body : Expr) (i : FrameId) :
    (s.newClosure formals body i).1 = (s'.newClosure formals body (P.place i)).1 ∧
      (s.newClosure formals body i).2.Collapses P
        (s'.newClosure formals body (P.place i)).2 := by
  refine ⟨h.size_closures.symm, h.old, h.new, h.omitted, h.kept, fun id => ?_⟩
  rw [Store.newClosure, Store.newClosure, Array.getElem?_push, Array.getElem?_push,
    h.size_closures]
  split
  · rfl
  · exact h.closure id

/-- Making frames in frames that correspond. -/
theorem newFrame (h : s.Collapses P s') (b : Bindings) (outer : FrameId) :
    (s'.newFrame b (some (P.place outer))).1 = P.place (s.newFrame b (some outer)).1 ∧
      (s.newFrame b (some outer)).2.Collapses P (s'.newFrame b (some (P.place outer))).2 := by
  refine ⟨h.place_size.symm, ?_⟩
  constructor
  case old =>
    intro i hi
    rw [size_newFrame] at hi ⊢
    rcases Nat.lt_succ_iff_lt_or_eq.1 hi with hi | rfl
    · exact Nat.lt_succ_of_lt (h.old i hi)
    · rw [h.place_size]
      exact Nat.lt_succ_self _
  case new =>
    intro k
    rw [size_newFrame, size_newFrame, Nat.add_assoc, Nat.add_assoc]
    exact h.new (1 + k)
  case omitted =>
    intro i hi
    obtain ⟨hlt, hempty, hparent⟩ := h.omitted i hi
    have hne := Nat.ne_of_lt hlt
    rw [size_newFrame, bindings_newFrame, if_neg hne, parent?_newFrame_of_ne hne]
    exact ⟨Nat.lt_succ_of_lt hlt, hempty, hparent⟩
  case kept =>
    intro i hi
    have hsize : ¬ P.omitted s.frames.size := h.not_omitted_of_size_le (Nat.le_refl _)
    by_cases heq : i = s.frames.size
    · -- The new frame has its outer frame in the one store exactly if it has it in the other.
      subst heq
      rw [h.place_size, bindings_newFrame, bindings_newFrame, if_pos rfl, if_pos rfl,
        parent?_newFrame_self, parent?_newFrame_self, Option.filter_some, Option.filter_some]
      simp only [h.place_lt_iff]
      split
      · exact ⟨trivial, rfl⟩
      · exact ⟨trivial, rfl⟩
    · have hne : P.place i ≠ s'.frames.size :=
        fun hplace => heq (P.inj hi hsize (hplace.trans h.place_size.symm))
      rw [bindings_newFrame, bindings_newFrame, if_neg heq, if_neg hne,
        parent?_newFrame_of_ne heq, parent?_newFrame_of_ne hne]
      exact h.kept i hi
  case closure => exact h.closure

/-- An empty frame that is made in the first store alone is left out. -/
theorem leaveOut (h : s.Collapses P s') (hs : s.Nested) {outer : FrameId}
    (houter : outer < s.frames.size) :
    (s.newFrame [] (some outer)).2.Collapses (P.leaveOut s.frames.size outer) s' := by
  constructor
  case old =>
    intro i hi
    rw [size_newFrame] at hi
    rcases Nat.lt_succ_iff_lt_or_eq.1 hi with hi | rfl
    · rw [Placement.place_leaveOut_of_lt hi]
      exact h.old i hi
    · rw [Placement.place_leaveOut_self]
      exact h.old outer houter
  case new =>
    intro k
    -- Frames to come have numbers one higher than they would have without this one.
    have hlt : s.frames.size < s.frames.size + 1 + k := by omega
    have hpred : s.frames.size + 1 + k - 1 = s.frames.size + k := by omega
    rw [size_newFrame, Placement.place_leaveOut_of_gt hlt, hpred]
    exact h.new k
  case omitted =>
    intro i hi
    rw [size_newFrame]
    by_cases heq : i = s.frames.size
    · subst heq
      refine ⟨Nat.lt_succ_self _, ?_, outer, ?_, ?_⟩
      · rw [bindings_newFrame, if_pos rfl]
      · rw [parent?_newFrame_self, Option.filter_some, if_pos (decide_eq_true houter)]
      · rw [Placement.place_leaveOut_self, Placement.place_leaveOut_of_lt houter]
    · obtain ⟨hlt, hempty, p, hp, hplace⟩ := h.omitted _ (hi.resolve_left heq)
      have hi : i < s.frames.size := by
        refine (Nat.lt_or_gt_of_ne heq).resolve_right fun hgt => ?_
        rw [Placement.without_of_gt hgt] at hlt
        exact Nat.not_lt.2 (Nat.le_sub_one_of_lt hgt) hlt
      rw [Placement.without_of_lt hi] at hempty hp hplace
      refine ⟨Nat.lt_succ_of_lt hi, ?_, p, ?_, ?_⟩
      · rw [bindings_newFrame, if_neg heq, hempty]
      · rw [parent?_newFrame_of_ne heq, hp]
      · have hlt := Nat.lt_trans (parent?_lt hp) hi
        rw [Placement.place_leaveOut_of_lt hi, Placement.place_leaveOut_of_lt hlt, hplace]
  case kept =>
    intro i hi
    obtain ⟨hne, hi⟩ := not_or.1 hi
    obtain ⟨hbindings, hparent⟩ := h.kept _ hi
    rw [Placement.place_leaveOut_of_ne hne, bindings_newFrame, if_neg hne,
      parent?_newFrame_of_ne hne, hbindings, hparent]
    rcases Nat.lt_or_gt_of_ne hne with hlt | hgt
    · rw [Placement.without_of_lt hlt]
      refine ⟨rfl, Option.map_congr fun p hp => ?_⟩
      exact (Placement.place_leaveOut_of_lt (Nat.lt_trans (parent?_lt hp) hlt)).symm
    · -- There is no such frame yet, in neither numbering.
      rw [Placement.without_of_gt hgt]
      have hle := Nat.le_sub_one_of_lt hgt
      rw [bindings_of_size_le hle, parent?_of_size_le hle, bindings_of_size_le (Nat.le_of_lt hgt),
        parent?_of_size_le (Nat.le_of_lt hgt)]
      exact ⟨rfl, rfl⟩
  case closure =>
    intro id
    rw [h.closure]
    refine Option.map_congr fun c hc => ?_
    -- Closures were made in older frames, whose places stay.
    have hscope := hs.scope c (Array.mem_of_getElem? hc)
    rw [Closure.place, Closure.place, Placement.place_leaveOut_of_lt hscope]

end Collapses

end Store

end PocketLisp
