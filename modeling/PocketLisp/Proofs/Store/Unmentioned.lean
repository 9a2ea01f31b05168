import Mathlib.Data.Set.Insert
import PocketLisp.Proofs.Code.Closures
import PocketLisp.Proofs.Code.Renaming
import PocketLisp.Proofs.Store.Shape

/-!
# Stores that differ in one name

Two stores with the same scopes and closures, whose frames bind the same names to the same values
but for one name. No walk for another name sees the difference, and where no code that can be come
by mentions that one name, nothing ever binds it.

## Main definitions

- `Store.DiffersIn` — two stores that differ in what they bind to one name
- `Store.Held` — a closure that evaluation can come by
- `Store.Ignores` — what evaluation can come by in a store does not mention a name

## Main statements

- `Store.DiffersIn.lookup`, `Store.DiffersIn.assign` — reading and assigning other names
- `Store.Ignores.lookup`, `Store.Ignores.assign`, `Store.Ignores.newClosure`,
  `Store.Ignores.newFrame` — the operations on stores leave the name as it was bound
- `Store.DiffersIn.ignores` — it is enough that the closures that are held do not mention it
-/

namespace PocketLisp

/-- Every closure in the value is one of these. -/
def Value.ClosuresIn (known : Set ClosureId) (v : Value) : Prop :=
  ∀ id, v.HasClosure id → id ∈ known

/-- The name does not occur in the expression, and every closure in a constant is one of these. -/
def Expr.Ignores (n : String) (known : Set ClosureId) (e : Expr) : Prop :=
  e.Avoids n ∧ ∀ id, e.HasClosure id → id ∈ known

section

variable {n : String} {known known' : Set ClosureId} {v : Value} {e body : Expr}
  {formals : List String}

theorem Value.ClosuresIn.mono (hle : known ≤ known') (h : v.ClosuresIn known) :
    v.ClosuresIn known' :=
  fun id hid => hle (h id hid)

theorem Expr.Ignores.mono (hle : known ≤ known') (h : e.Ignores n known) : e.Ignores n known' :=
  ⟨h.1, fun id hid => hle (h.2 id hid)⟩

theorem Expr.ignores_lambda :
    (Expr.lambda formals body).Ignores n known ↔ n ∉ formals ∧ body.Ignores n known := by
  rw [Expr.Ignores, Expr.avoids_lambda, and_assoc]
  rfl

end

namespace Store

variable {n : String} {known : Set ClosureId} {s s' s₀ : Store} {i : FrameId} {name : String}
  {v : Value} {b : Bindings}

/-! ### The difference -/

/-- The same closures and the same frames inside the same frames. Every name but one has the same
value in every frame, or is bound in neither store. -/
structure DiffersIn (n : String) (s s' : Store) : Prop where
  closures : s'.closures = s.closures
  parents : ∀ i : FrameId, s'.frames[i]?.map Frame.parent = s.frames[i]?.map Frame.parent
  same : ∀ i name, name ≠ n → (s'.bindings i).get? name = (s.bindings i).get? name

namespace DiffersIn

theorem parent? (h : s.DiffersIn n s') (i : FrameId) : s'.parent? i = s.parent? i := by
  rw [parent?_eq, parent?_eq, h.parents]

theorem size (h : s.DiffersIn n s') : s'.frames.size = s.frames.size :=
  size_eq_of_parents h.parents

theorem define (h : s.DiffersIn n s') (i : FrameId) (name : String) (v : Value) :
    (s.define i name v).DiffersIn n (s'.define i name v) where
  closures := h.closures
  parents j := by rw [map_parent_define, map_parent_define, h.parents]
  same j other hother := by
    by_cases hi : i < s.frames.size
    · have hi' : i < s'.frames.size := h.size ▸ hi
      rw [get?_bindings_define hi, get?_bindings_define hi', h.same j other hother]
    · have hi' : ¬ i < s'.frames.size := h.size ▸ hi
      rw [define_of_size_le (Nat.not_lt.1 hi), define_of_size_le (Nat.not_lt.1 hi')]
      exact h.same j other hother

theorem assign (h : s.DiffersIn n s') (hname : name ≠ n) (i : FrameId) (v : Value) :
    (s.assign i name v).DiffersIn n (s'.assign i name v) := by
  rw [assign_eq, assign_eq, target_congr h.parent? (fun j => h.same j name hname) i]
  exact h.define _ name v

theorem lookup (h : s.DiffersIn n s') (hname : name ≠ n) (i : FrameId) :
    (s.lookup i name).1 = (s'.lookup i name).1 ∧
      (s.lookup i name).2.DiffersIn n (s'.lookup i name).2 := by
  have hget : s'.get? i name = s.get? i name := by
    rw [get?, get?, find?_congr h.parent? (fun j => h.same j name hname) i]
  cases hv : s.get? i name with
  | some v =>
    rw [lookup_of_some hv, lookup_of_some (hget.trans hv)]
    exact ⟨rfl, h⟩
  | none =>
    rw [lookup_of_none hv, lookup_of_none (hget.trans hv)]
    exact ⟨rfl, h.assign hname i .nil⟩

theorem newClosure (h : s.DiffersIn n s') (formals : List String) (body : Expr) (i : FrameId) :
    (s.newClosure formals body i).1 = (s'.newClosure formals body i).1 ∧
      (s.newClosure formals body i).2.DiffersIn n (s'.newClosure formals body i).2 := by
  simp only [Store.newClosure, h.closures, true_and]
  exact ⟨rfl, h.parents, h.same⟩

theorem newFrame (h : s.DiffersIn n s') (b : Bindings) (parent : Option FrameId) :
    (s.newFrame b parent).1 = (s'.newFrame b parent).1 ∧
      (s.newFrame b parent).2.DiffersIn n (s'.newFrame b parent).2 := by
  refine ⟨h.size.symm, h.closures, map_parent_newFrame h.parents b b parent, ?_⟩
  intro i name hname
  rw [bindings_newFrame, bindings_newFrame, h.size]
  split
  · rfl
  · exact h.same i name hname

end DiffersIn

/-- Binding the name makes no other difference. -/
theorem differsIn_define (s : Store) (i : FrameId) (n : String) (v : Value) :
    s.DiffersIn n (s.define i n v) where
  closures := rfl
  parents j := map_parent_define s i j n v
  same j name hname := by
    by_cases hi : i < s.frames.size
    · rw [get?_bindings_define hi, if_neg fun h => hname h.2.symm]
    · rw [define_of_size_le (Nat.not_lt.1 hi)]

/-! ### What evaluation can come by -/

/-- A closure that evaluation of an expression can come by in a store: it is in a value that some
frame binds, or in a constant of the expression, or in a constant in the code of such a closure. -/
inductive Held (s : Store) (e : Expr) : ClosureId → Prop
  | bound {v : Value} {id : ClosureId} : s.Binds v → v.HasClosure id → Held s e id
  | code {id : ClosureId} : e.HasClosure id → Held s e id
  | inner {id id' : ClosureId} {c : Closure} : Held s e id → s.closures[id]? = some c →
      c.body.HasClosure id' → Held s e id'

/-- Among these closures, which are all that frames hold, none mentions the name. Every frame has
the name bound as it was in an earlier store. -/
structure Ignores (s : Store) (n : String) (known : Set ClosureId) (s₀ : Store) : Prop where
  keeps : ∀ i, (s.bindings i).get? n = (s₀.bindings i).get? n
  bound : ∀ v, s.Binds v → v.ClosuresIn known
  code : ∀ id ∈ known, ∀ c, s.closures[id]? = some c →
    (Expr.lambda c.formals c.body).Ignores n known

namespace Ignores

theorem define (h : s.Ignores n known s₀) (hname : name ≠ n) (hv : v.ClosuresIn known)
    (i : FrameId) : (s.define i name v).Ignores n known s₀ where
  keeps j := by rw [← h.keeps j, (differsIn_define s i name v).same j n hname.symm]
  bound w hw := by
    rcases binds_define hw with hw | rfl
    · exact h.bound w hw
    · exact hv
  code := h.code

theorem assign (h : s.Ignores n known s₀) (hname : name ≠ n) (hv : v.ClosuresIn known)
    (i : FrameId) : (s.assign i name v).Ignores n known s₀ := by
  rw [assign_eq]
  exact h.define hname hv _

theorem lookup (h : s.Ignores n known s₀) (hname : name ≠ n) (i : FrameId) :
    (s.lookup i name).1.ClosuresIn known ∧ (s.lookup i name).2.Ignores n known s₀ := by
  have hnil : Value.nil.ClosuresIn known := fun _ hid => hid.elim
  cases hv : s.get? i name with
  | some v =>
    rw [lookup_of_some hv]
    exact ⟨h.bound v (binds_of_get? hv), h⟩
  | none =>
    rw [lookup_of_none hv]
    exact ⟨hnil, h.assign hname hnil i⟩

/-- The new closure is one more that evaluation can come by. -/
theorem newClosure {formals : List String} {body : Expr} (h : s.Ignores n known s₀)
    (hcode : (Expr.lambda formals body).Ignores n known) (i : FrameId) :
    (s.newClosure formals body i).2.Ignores n
      (insert (s.newClosure formals body i).1 known) s₀ where
  keeps := h.keeps
  bound v hv := (h.bound v hv).mono (Set.subset_insert _ _)
  code id hid c hc := by
    rw [Store.newClosure, Array.getElem?_push] at hc
    split at hc
    · cases hc
      exact hcode.mono (Set.subset_insert _ _)
    · next hne =>
      have hknown : id ∈ known := (Set.mem_insert_iff.1 hid).resolve_left hne
      exact (h.code id hknown c hc).mono (Set.subset_insert _ _)

theorem newFrame (h : s.Ignores n known s₀) (hb : n ∉ b.names)
    (hvalues : ∀ name v, (name, v) ∈ b → v.ClosuresIn known) (parent : Option FrameId) :
    (s.newFrame b parent).2.Ignores n known s₀ where
  keeps i := by
    rw [bindings_newFrame]
    split
    · next hi =>
      -- Where the new frame is, there was none before, which binds nothing.
      have hnone : s.bindings i = [] := by simp [bindings, hi]
      have hunbound : b.get? n = none := by
        rwa [Bindings.mem_names_iff, Bool.not_eq_true, Option.isSome_eq_false_iff,
          Option.isNone_iff_eq_none] at hb
      rw [hunbound, ← h.keeps i, hnone]
      rfl
    · exact h.keeps i
  bound w hw := by
    rcases binds_newFrame hw with hw | ⟨name, hmem⟩
    · exact h.bound w hw
    · exact hvalues name w hmem
  code := h.code

end Ignores

/-- No code that can be come by in either of two stores that differ in a name mentions it. -/
theorem DiffersIn.ignores {e : Expr} (h : s.DiffersIn n s')
    (hheld : ∀ id c, s.Held e id ∨ s'.Held e id → s.closures[id]? = some c →
      (Expr.lambda c.formals c.body).Avoids n) :
    s.Ignores n {id | s.Held e id ∨ s'.Held e id} s ∧
      s'.Ignores n {id | s.Held e id ∨ s'.Held e id} s' := by
  have hcode : ∀ id ∈ {id | s.Held e id ∨ s'.Held e id}, ∀ c, s.closures[id]? = some c →
      (Expr.lambda c.formals c.body).Ignores n {id | s.Held e id ∨ s'.Held e id} := by
    intro id hid c hc
    refine ⟨hheld id c hid hc, fun id' hid' => ?_⟩
    rcases hid with hid | hid
    · exact .inl (.inner hid hc hid')
    · exact .inr (.inner hid (by rwa [h.closures]) hid')
  constructor
  · exact ⟨fun _ => rfl, fun v hv id hid => .inl (.bound hv hid), hcode⟩
  · refine ⟨fun _ => rfl, fun v hv id hid => .inr (.bound hv hid), ?_⟩
    rw [h.closures]
    exact hcode

end Store

end PocketLisp
