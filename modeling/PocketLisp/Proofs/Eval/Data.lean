import PocketLisp.Proofs.Eval.Invariant
import PocketLisp.Proofs.Store.Contents

/-!
# Invariants of data and code

A property of single values and of single expressions is kept by evaluation when the literals and
closures that code brings about have it, and when what a primitive operation answers has it as soon
as the arguments do.

## Main definitions

- `DataInvariant` — such a property
- `DataInvariant.Holds` — all values bound in a store and all bodies of closures have it
- `DataInvariant.toInvariant` — the invariant of evaluation that it gives

## Main statements

- `DataInvariant.eval_keeps` — evaluation gives only values with the property, and leaves a store
  in which it holds

## Design notes

Which values are good may depend on how many closures there are, since a closure is a number.
Closures are never removed, so a good value stays good.
-/

namespace PocketLisp

/-- A property of all parts that only closures can fail to have goes over from the arguments to the
answer of a primitive operation. -/
theorem Primitive.Answer.all {p : Value → Prop} {args : List Value} {v : Value}
    (hp : ∀ w, (∀ id, w ≠ .closure id) → p w) (hargs : ∀ a ∈ args, a.All p)
    (h : Answer args v) : v.All p := by
  cases h with
  | number n => exact hp _ nofun
  | truth b => cases b <;> exact hp _ nofun
  | single ha => exact ⟨hp _ nofun, hargs _ ha, hp _ nofun⟩
  | cons ha htail => exact ⟨hp _ nofun, hargs _ ha, hargs _ htail⟩
  | car h => exact (hargs _ h).2.1
  | cdr h => exact (hargs _ h).2.2
  | same h => exact hargs _ h

/-- A property of code and data that evaluation keeps. -/
structure DataInvariant where
  code : Expr → Prop
  /-- The good values, when there are that many closures. -/
  value : Nat → Value → Prop
  error : Error → Prop
  value_mono : ∀ {n n' v}, n ≤ n' → value n v → value n' v
  value_nil : ∀ n, value n .nil
  value_literal : ∀ {v} n, code (.literal v) → value n v
  value_answer : ∀ {n args v}, (∀ a ∈ args, value n a) → Primitive.Answer args v → value n v
  value_closure : ∀ {formals body} n, code (.lambda formals body) → value (n + 1) (.closure n)
  code_lambda : ∀ {formals body}, code (.lambda formals body) → code body
  code_special : ∀ {keyword args}, code (.special keyword args) → ∀ e ∈ args, code e
  code_call : ∀ {f args}, code (.call f args) → code f ∧ ∀ e ∈ args, code e
  error_of_not_isInternal : ∀ {e}, ¬ e.IsInternal → error e
  error_malformed : ∀ {keyword args}, code (.special keyword args) → ¬ keyword.Suits args →
    ∀ detail, error (.internal detail)

namespace DataInvariant

variable (D : DataInvariant) {s s' : Store} {i : FrameId} {name : String} {v : Value}

/-- Every value bound in the store is good, and so is the body of every closure. -/
structure Holds (s : Store) : Prop where
  bound : ∀ v, s.Binds v → D.value s.closures.size v
  body : ∀ c ∈ s.closures, D.code c.body

variable {D}

theorem Holds.of_closures_eq (h : D.Holds s) (heq : s'.closures = s.closures)
    (hbound : ∀ w, s'.Binds w → s.Binds w ∨ D.value s.closures.size w) : D.Holds s' := by
  constructor
  · intro w hw
    rw [heq]
    rcases hbound w hw with hw | hw
    · exact h.bound w hw
    · exact hw
  · intro c hc
    rw [heq] at hc
    exact h.body c hc

theorem Holds.lookup (h : D.Holds s) (heq : s.lookup i name = (v, s')) :
    D.Holds s' ∧ D.value s'.closures.size v := by
  obtain ⟨hv, hbound⟩ := Store.binds_lookup heq
  have hclosures := Store.closures_lookup heq
  constructor
  · refine h.of_closures_eq hclosures fun w hw => (hbound w hw).imp_right ?_
    rintro rfl
    exact D.value_nil _
  · rw [hclosures]
    rcases hv with hv | rfl
    · exact h.bound v hv
    · exact D.value_nil _

theorem Holds.assign (h : D.Holds s) (hv : D.value s.closures.size v) :
    D.Holds (s.assign i name v) := by
  refine h.of_closures_eq Store.closures_assign fun w hw => (Store.binds_assign hw).imp_right ?_
  rintro rfl
  exact hv

theorem Holds.newFrame {b : Bindings} {parent : Option FrameId} (h : D.Holds s)
    (hb : ∀ n v, (n, v) ∈ b → D.value s.closures.size v) : D.Holds (s.newFrame b parent).2 := by
  refine h.of_closures_eq rfl fun w hw => (Store.binds_newFrame hw).imp_right ?_
  exact fun ⟨n, hn⟩ => hb n w hn

theorem Holds.newClosure {formals : List String} {body : Expr} (h : D.Holds s)
    (hbody : D.code body) : D.Holds (s.newClosure formals body i).2 := by
  constructor
  · intro v hv
    refine D.value_mono ?_ (h.bound v hv)
    simp [Store.newClosure]
  · intro c hc
    rcases Array.mem_push.1 hc with hc | rfl
    · exact h.body c hc
    · exact hbody

variable (D)

/-- The invariant of evaluation that an invariant of data and code gives. -/
def toInvariant : Invariant where
  machine m := D.Holds m.store
  step m m' := m.store.closures.size ≤ m'.store.closures.size
  code _ _ e := D.code e
  value m v := D.value m.store.closures.size v
  closure _ c := D.code c.body
  error := D.error
  step_refl _ := Nat.le_refl _
  step_trans := Nat.le_trans
  code_step _ h := h
  value_step := D.value_mono
  closure_step _ h := h
  code_special := D.code_special
  code_call := D.code_call
  value_nil _ := D.value_nil _
  value_literal h := D.value_literal _ h
  lookup h heq := by
    obtain ⟨hholds, hv⟩ := h.lookup heq
    exact ⟨hholds, Nat.le_of_eq (congrArg Array.size (Store.closures_lookup heq)).symm, hv⟩
  assign i name h hv :=
    ⟨h.assign hv, Nat.le_of_eq (congrArg Array.size Store.closures_assign).symm⟩
  newClosure h hcode heq := by
    cases heq
    refine ⟨h.newClosure (D.code_lambda hcode), by simp, ?_⟩
    simpa [Store.newClosure] using D.value_closure _ hcode
  found h hc := h.body _ (Array.mem_of_getElem? hc)
  enter h hc _ hargs heq := by
    cases heq
    refine ⟨h.newFrame fun n v hv => ?_, Nat.le_refl _, hc⟩
    exact hargs v (List.of_mem_zip (Bindings.mem_of_mem_ofPairs hv)).2
  primitive {m p args r out} h hargs heq := by
    refine ⟨h, Nat.le_refl _, ?_⟩
    have hproper := Primitive.apply_proper p args m.out
    rw [heq] at hproper
    cases r with
    | ok v => exact D.value_answer hargs hproper
    | error e => exact D.error_of_not_isInternal hproper
  error_of_not_isInternal := D.error_of_not_isInternal
  error_malformed := D.error_malformed

/-- Evaluation of good code on a store in which all is good gives a good value or a good error, and
leaves a store in which all is good and no closure is missing. -/
theorem eval_keeps {e : Expr} {m : Machine} (h : D.Holds m.store) (he : D.code e) (fuel : Nat)
    (scope : FrameId) :
    (eval fuel scope e).Ends m
      (fun v m' => D.Holds m'.store ∧ m.store.closures.size ≤ m'.store.closures.size ∧
        D.value m'.store.closures.size v)
      fun e m' => D.Holds m'.store ∧ m.store.closures.size ≤ m'.store.closures.size ∧
        D.error e :=
  (D.toInvariant.eval_safe fuel scope e m h he).imp (fun _ _ h => ⟨h.1.1, h.1.2, h.2⟩)
    fun _ _ h => ⟨h.1.1, h.1.2, h.2⟩

end DataInvariant

end PocketLisp
