import Mathlib.Logic.Relation
import PocketLisp.Proofs.Store.Contents
import PocketLisp.Proofs.Store.Scopes

/-!
# The shape of scopes

Evaluation does four things to a store: it gives another value to a name that a frame binds, it
gives a value to a name in an outermost frame, it makes a closure and it makes the frame of a call.
None of them moves a frame, or makes a frame inside another one bind other names than before.

## Main definitions

- `Store.Nested` — every frame is inside one that was made before it
- `Store.Walk` — a walk outwards from a frame, and where it comes by
- `Store.Step`, `Store.Steps` — what evaluation does to a store, once and any number of times
- `Store.MadeByCall` — a frame was made on the way by a call of a closure
- `Store.KeepsScopes` — what becomes of the scopes of a store

## Main statements

- `Store.Nested.walk` — where frames are nested, every walk ends
- `Store.steps_lookup`, `Store.steps_assign` — reading and assigning a name are such steps
- `Store.Step.nested`, `Store.Steps.nested` — frames stay nested
- `Store.Step.keepsFrames`, `Store.Steps.keepsFrames` — the frames that were there keep their shape
- `Store.Steps.exists_madeByCall` — every other frame is that of a call
- `Store.Steps.keepsScopes` — what becomes of all of them

## Design notes

A walk follows what the frames themselves say is around them, while `Store.chain` disregards a
parent that was not made earlier. So a walk need not end in every store.
-/

namespace PocketLisp

/-! ### The names that are bound -/

namespace Bindings

variable {b : Bindings} {name other : String} {v : Value}

theorem mem_names_iff : name ∈ b.names ↔ (b.get? name).isSome := by
  induction b with
  | nil => simp [names, get?]
  | cons nv b ih =>
    obtain ⟨n, w⟩ := nv
    rw [names] at ih
    rw [names, List.map_cons, List.mem_cons, ih, get?]
    by_cases h : n = name
    · simp [h]
    · simp [h, Ne.symm h]

theorem mem_names_set : other ∈ (b.set name v).names ↔ name = other ∨ other ∈ b.names := by
  rw [mem_names_iff, mem_names_iff, get?_set]
  by_cases h : name = other
  · simp [h]
  · simp [h]

theorem mem_names_foldl_set {pairs : List (String × Value)} :
    name ∈ (pairs.foldl (fun b (name, value) => b.set name value) b).names ↔
      name ∈ b.names ∨ name ∈ pairs.map Prod.fst := by
  induction pairs generalizing b with
  | nil => simp
  | cons nv pairs ih =>
    rw [List.foldl_cons, ih, mem_names_set, List.map_cons, List.mem_cons, eq_comm, or_left_comm,
      or_assoc]

/-- Formals that are bound to as many arguments are the names that are bound. -/
theorem mem_names_ofPairs_zip {formals : List String} {args : List Value}
    (h : formals.length = args.length) :
    name ∈ (ofPairs (formals.zip args)).names ↔ name ∈ formals := by
  rw [ofPairs, mem_names_foldl_set, List.map_fst_zip (Nat.le_of_eq h)]
  simp [names]

end Bindings

namespace Store

variable {s s₁ s₂ s' : Store} {i j p : FrameId} {name : String} {v : Value} {frame : Frame}
  {c : Closure} {args : List Value}

/-! ### Walks -/

/-- Every frame is inside one that was made before it, and every closure was made in a frame that
is there. -/
structure Nested (s : Store) : Prop where
  inside : ∀ {i p : FrameId} {frame : Frame}, s.frames[i]? = some frame →
    frame.parent = some p → p < i
  scope : ∀ c ∈ s.closures, c.scope < s.frames.size

/-- A walk outwards, as the frames say what is around them, that ends. It comes by these frames. -/
inductive Walk (s : Store) : FrameId → List FrameId → Prop
  | outermost {i : FrameId} {frame : Frame} : s.frames[i]? = some frame → frame.parent = none →
      Walk s i [i]
  | inside {i p : FrameId} {is : List FrameId} {frame : Frame} : s.frames[i]? = some frame →
      frame.parent = some p → Walk s p is → Walk s i (i :: is)

theorem parent?_of_getElem? (h : s.frames[i]? = some frame) :
    s.parent? i = frame.parent.filter (· < i) := by
  rw [parent?, h]

theorem Nested.parent?_eq_parent (h : s.Nested) (hframe : s.frames[i]? = some frame) :
    s.parent? i = frame.parent := by
  rw [parent?_of_getElem? hframe]
  cases hp : frame.parent with
  | none => rfl
  | some p =>
    have hlt := h.inside hframe hp
    simp [hlt]

/-- Where frames are nested, every walk ends, and comes by the frames of the scope. -/
theorem Nested.walk (h : s.Nested) (hi : i < s.frames.size) : s.Walk i (s.chain i) := by
  induction i using Nat.strongRecOn with
  | ind i ih =>
    have hframe := Array.getElem?_eq_getElem hi
    have hparent := h.parent?_eq_parent hframe
    cases hp : s.parent? i with
    | none =>
      rw [chain_of_root hp]
      exact .outermost hframe (hparent.symm.trans hp)
    | some p =>
      rw [chain_of_parent hp]
      have hlt := parent?_lt hp
      exact .inside hframe (hparent.symm.trans hp) (ih p hlt (Nat.lt_trans hlt hi))

theorem le_of_mem_chain (h : j ∈ s.chain i) : j ≤ i := by
  induction i using Nat.strongRecOn with
  | ind i ih =>
    cases hp : s.parent? i with
    | none =>
      rw [chain_of_root hp] at h
      exact Nat.le_of_eq (List.mem_singleton.1 h)
    | some p =>
      rw [chain_of_parent hp] at h
      have hlt := parent?_lt hp
      rcases List.mem_cons.1 h with rfl | h
      · exact Nat.le_refl _
      · exact Nat.le_trans (ih p hlt h) (Nat.le_of_lt hlt)

/-- A name has a value in a scope when some frame of the scope binds it. -/
theorem isSome_get?_iff :
    (s.get? i name).isSome ↔ ∃ j ∈ s.chain i, name ∈ (s.bindings j).names := by
  simp only [get?, find?, Option.isSome_map, List.findSome?_isSome_iff, Bindings.mem_names_iff]

/-! ### Steps -/

/-- The store after a call of a closure made the frame in which its body is evaluated. -/
def enter (s : Store) (c : Closure) (args : List Value) : Store :=
  (s.newFrame (.ofPairs (c.formals.zip args)) (some c.scope)).2

/-- One thing that evaluation does to a store. -/
inductive Step : Store → Store → Prop
  | rebind {s : Store} {i : FrameId} {name : String} (v : Value) :
      name ∈ (s.bindings i).names → Step s (s.define i name v)
  | introduce {s : Store} {i : FrameId} (name : String) (v : Value) :
      s.parent? i = none → Step s (s.define i name v)
  | closure {s : Store} {i : FrameId} (formals : List String) (body : Expr) :
      i < s.frames.size → Step s (s.newClosure formals body i).2
  | call {s : Store} {c : Closure} {args : List Value} :
      c ∈ s.closures → c.formals.length = args.length → Step s (s.enter c args)

/-- What evaluation does to a store, one thing after another. -/
def Steps : Store → Store → Prop := Relation.ReflTransGen Step

/-- A name is assigned where it is bound, or else in an outermost frame. -/
theorem mem_names_target_or (s : Store) (i : FrameId) (name : String) :
    name ∈ (s.bindings (s.target i name)).names ∨ s.parent? (s.target i name) = none := by
  unfold target
  split
  · next j w h =>
    obtain ⟨k, -, hk⟩ := List.exists_of_findSome?_eq_some h
    obtain ⟨w', hw', heq⟩ := Option.map_eq_some_iff.1 hk
    cases heq
    exact .inl (Bindings.mem_names_iff.2 (Option.isSome_of_eq_some hw'))
  · exact .inr (parent?_root s i)

theorem steps_assign (s : Store) (i : FrameId) (name : String) (v : Value) :
    Steps s (s.assign i name v) := by
  rw [assign_eq]
  rcases mem_names_target_or s i name with hbound | hroot
  · exact .single (.rebind v hbound)
  · exact .single (.introduce name v hroot)

theorem steps_lookup (s : Store) (i : FrameId) (name : String) :
    Steps s (s.lookup i name).2 := by
  unfold lookup
  split
  · exact .refl
  · exact .single (.introduce name .nil (parent?_root s i))

/-! ### What a step keeps -/

@[simp]
theorem size_define : (s.define i name v).frames.size = s.frames.size := by
  simp [define]

@[simp]
theorem size_newFrame (b : Bindings) (parent : Option FrameId) :
    (s.newFrame b parent).2.frames.size = s.frames.size + 1 :=
  Array.size_push _

@[simp]
theorem size_enter : (s.enter c args).frames.size = s.frames.size + 1 := size_newFrame _ _

theorem getElem?_enter :
    (s.enter c args).frames[i]? =
      if i = s.frames.size then some ⟨.ofPairs (c.formals.zip args), some c.scope⟩
      else s.frames[i]? := by
  rw [enter, newFrame, Array.getElem?_push]

theorem bindings_enter :
    (s.enter c args).bindings i =
      if i = s.frames.size then .ofPairs (c.formals.zip args) else s.bindings i :=
  bindings_newFrame _ _

theorem Nested.define (h : s.Nested) : (s.define i name v).Nested where
  inside {j p frame} hframe hp := by
    have hparent := map_parent_define s i j name v
    rw [hframe, Option.map_some, eq_comm, Option.map_eq_some_iff] at hparent
    obtain ⟨old, hold, heq⟩ := hparent
    exact h.inside hold (heq.trans hp)
  scope c hc := by
    rw [size_define]
    exact h.scope c hc

/-- Where frames are nested, they still are when one was made inside an earlier one. -/
theorem Nested.newFrame {b : Bindings} {parent : Option FrameId} (h : s.Nested)
    (hparent : ∀ p, parent = some p → p < s.frames.size) : (s.newFrame b parent).2.Nested where
  inside {i p frame} hframe hp := by
    rw [Store.newFrame, Array.getElem?_push] at hframe
    split at hframe
    · next hi =>
      cases hframe
      rw [hi]
      exact hparent p hp
    · exact h.inside hframe hp
  scope c hc := by
    rw [size_newFrame]
    exact Nat.lt_succ_of_lt (h.scope c hc)

theorem Step.nested (h : Step s s') (hs : s.Nested) : s'.Nested := by
  cases h with
  | rebind v hbound => exact hs.define
  | introduce name v hroot => exact hs.define
  | closure formals body hi =>
    refine ⟨hs.inside, fun c hc => ?_⟩
    rcases Array.mem_push.1 hc with hc | rfl
    · exact hs.scope c hc
    · exact hi
  | call hc hlength =>
    refine hs.newFrame ?_
    rintro p ⟨⟩
    exact hs.scope _ hc

/-- Frames stay nested. -/
theorem Steps.nested (h : Steps s s') (hs : s.Nested) : s'.Nested := by
  induction h with
  | refl => exact hs
  | tail _ hstep ih => exact hstep.nested ih

theorem Step.mem_closures (h : Step s s') (hc : c ∈ s.closures) : c ∈ s'.closures := by
  cases h with
  | closure formals body hi => exact Array.mem_push.2 (.inl hc)
  | _ => exact hc

theorem Steps.mem_closures (h : Steps s s') (hc : c ∈ s.closures) : c ∈ s'.closures := by
  induction h with
  | refl => exact hc
  | tail _ hstep ih => exact hstep.mem_closures ih

/-- The frames of `s` are in `s'` where they were, with all their names; only an outermost one may
bind other names besides. -/
structure KeepsFrames (s s' : Store) : Prop where
  size : s.frames.size ≤ s'.frames.size
  parent : ∀ i < s.frames.size, s'.frames[i]?.map Frame.parent = s.frames[i]?.map Frame.parent
  names : ∀ i < s.frames.size, ∀ name ∈ (s.bindings i).names, name ∈ (s'.bindings i).names
  inner : ∀ i < s.frames.size, s.parent? i ≠ none →
    ∀ name ∈ (s'.bindings i).names, name ∈ (s.bindings i).names

namespace KeepsFrames

theorem refl (s : Store) : s.KeepsFrames s where
  size := Nat.le_refl _
  parent _ _ := rfl
  names _ _ _ h := h
  inner _ _ _ _ h := h

theorem parent?_eq (h : s.KeepsFrames s') (hi : i < s.frames.size) :
    s'.parent? i = s.parent? i := by
  rw [Store.parent?_eq, Store.parent?_eq, h.parent i hi]

theorem trans (h : s.KeepsFrames s₁) (h' : s₁.KeepsFrames s') : s.KeepsFrames s' where
  size := Nat.le_trans h.size h'.size
  parent i hi := (h'.parent i (Nat.lt_of_lt_of_le hi h.size)).trans (h.parent i hi)
  names i hi name hname := h'.names i (Nat.lt_of_lt_of_le hi h.size) name (h.names i hi name hname)
  inner i hi hp name hname := by
    have hp₁ : s₁.parent? i ≠ none := by rwa [h.parent?_eq hi]
    exact h.inner i hi hp name (h'.inner i (Nat.lt_of_lt_of_le hi h.size) hp₁ name hname)

/-- A scope is made up of the same frames. -/
theorem chain_eq (h : s.KeepsFrames s') (hi : i < s.frames.size) : s'.chain i = s.chain i := by
  induction i using Nat.strongRecOn with
  | ind i ih =>
    have hparent := h.parent?_eq hi
    cases hp : s.parent? i with
    | none => rw [chain_of_root hp, chain_of_root (hparent.trans hp)]
    | some p =>
      have hlt := parent?_lt hp
      rw [chain_of_parent hp, chain_of_parent (hparent.trans hp), ih p hlt (Nat.lt_trans hlt hi)]

/-- No name becomes unbound. -/
theorem isSome_get? (h : s.KeepsFrames s') (hi : i < s.frames.size)
    (hbound : (s.get? i name).isSome) : (s'.get? i name).isSome := by
  obtain ⟨j, hj, hname⟩ := isSome_get?_iff.1 hbound
  have hlt := Nat.lt_of_le_of_lt (le_of_mem_chain hj) hi
  rw [← h.chain_eq hi] at hj
  exact isSome_get?_iff.2 ⟨j, hj, h.names j hlt name hname⟩

end KeepsFrames

theorem mem_names_define (hi : i < s.frames.size) {other : String} :
    other ∈ ((s.define i name v).bindings j).names ↔
      i = j ∧ name = other ∨ other ∈ (s.bindings j).names := by
  rw [Bindings.mem_names_iff, Bindings.mem_names_iff, get?_bindings_define hi]
  by_cases h : i = j ∧ name = other
  · simp [h]
  · simp [h]

/-- Giving a name a value keeps all frames if the frame binds the name or is an outermost one. -/
theorem keepsFrames_define (h : s.parent? i ≠ none → name ∈ (s.bindings i).names) :
    s.KeepsFrames (s.define i name v) := by
  by_cases hi : i < s.frames.size
  · constructor
    case size => exact Nat.le_of_eq size_define.symm
    case parent => exact fun j _ => map_parent_define s i j name v
    case names => exact fun j _ other hother => (mem_names_define hi).2 (.inr hother)
    case inner =>
      intro j _ hp other hother
      rcases (mem_names_define hi).1 hother with ⟨rfl, rfl⟩ | hother
      · exact h hp
      · exact hother
  · rw [define_of_size_le (Nat.not_lt.1 hi)]
    exact .refl s

theorem keepsFrames_enter (s : Store) (c : Closure) (args : List Value) :
    s.KeepsFrames (s.enter c args) where
  size := by
    rw [size_enter]
    exact Nat.le_succ _
  parent i hi := by rw [getElem?_enter, if_neg (Nat.ne_of_lt hi)]
  names i hi name hname := by rwa [bindings_enter, if_neg (Nat.ne_of_lt hi)]
  inner i hi _ name hname := by rwa [bindings_enter, if_neg (Nat.ne_of_lt hi)] at hname

/-- A step keeps all frames. -/
theorem Step.keepsFrames (h : Step s s') : s.KeepsFrames s' := by
  cases h with
  | rebind v hbound => exact keepsFrames_define fun _ => hbound
  | introduce name v hroot => exact keepsFrames_define fun hp => absurd hroot hp
  | closure formals body hi =>
    exact ⟨Nat.le_refl _, fun _ _ => rfl, fun _ _ _ h => h, fun _ _ _ _ h => h⟩
  | call hc hlength => exact keepsFrames_enter _ _ _

/-- However many steps there are, they keep all frames. -/
theorem Steps.keepsFrames (h : Steps s s') : s.KeepsFrames s' := by
  induction h with
  | refl => exact .refl s
  | tail _ hstep ih => exact ih.trans hstep.keepsFrames

/-! ### Frames of calls -/

/-- The frame was made on the way from `s` to `s'`, when the closure was called. -/
def MadeByCall (s s' : Store) (c : Closure) (i : FrameId) : Prop :=
  ∃ s₁ args, Steps s s₁ ∧ c ∈ s₁.closures ∧ c.formals.length = args.length ∧
    i = s₁.frames.size ∧ Steps (s₁.enter c args) s'

theorem MadeByCall.tail (h : MadeByCall s s₁ c i) (hstep : Step s₁ s') : MadeByCall s s' c i := by
  obtain ⟨s₀, args, hbefore, hc, hlength, hi, hafter⟩ := h
  exact ⟨s₀, args, hbefore, hc, hlength, hi, hafter.tail hstep⟩

/-- Every frame that was not there before is that of a call. -/
theorem Steps.exists_madeByCall (h : Steps s s') (hold : s.frames.size ≤ i)
    (hi : i < s'.frames.size) : ∃ c, MadeByCall s s' c i := by
  induction h with
  | refl => exact absurd hi (Nat.not_lt.2 hold)
  | @tail s₁ s₂ hsteps hstep ih =>
    by_cases hi₁ : i < s₁.frames.size
    · obtain ⟨c, hmade⟩ := ih hi₁
      exact ⟨c, hmade.tail hstep⟩
    · -- Only a call makes a frame, and it makes one.
      cases hstep with
      | rebind v _ => exact absurd (size_define ▸ hi) hi₁
      | introduce name v _ => exact absurd (size_define ▸ hi) hi₁
      | closure formals body _ => exact absurd hi hi₁
      | @call c args hc hlength =>
        rw [size_enter] at hi
        exact ⟨c, s₁, args, hsteps, hc, hlength, Nat.eq_of_lt_succ_of_not_lt hi hi₁, .refl⟩

/-- The frame of a call is inside the scope of the closure, which was there before it, and binds the
formals of the closure, whatever happened since. -/
theorem MadeByCall.names_iff (h : MadeByCall s s' c i) (hs : s.Nested) :
    c.scope < i ∧ s'.frames[i]?.map Frame.parent = some (some c.scope) ∧
      ∀ name, name ∈ (s'.bindings i).names ↔ name ∈ c.formals := by
  obtain ⟨s₁, args, hbefore, hc, hlength, rfl, hafter⟩ := h
  have hscope := (hbefore.nested hs).scope c hc
  have hkept := hafter.keepsFrames
  have hi : s₁.frames.size < (s₁.enter c args).frames.size := by rw [size_enter]; omega
  have hframe : (s₁.enter c args).frames[s₁.frames.size]? =
      some ⟨.ofPairs (c.formals.zip args), some c.scope⟩ := by
    rw [getElem?_enter, if_pos rfl]
  have hinner : (s₁.enter c args).parent? s₁.frames.size ≠ none := by
    rw [parent?_of_getElem? hframe]
    simp [hscope]
  have hnames : ∀ name, name ∈ ((s₁.enter c args).bindings s₁.frames.size).names ↔
      name ∈ c.formals := by
    intro name
    rw [bindings_enter, if_pos rfl]
    exact Bindings.mem_names_ofPairs_zip hlength
  refine ⟨hscope, ?_, fun name => ?_⟩
  · rw [hkept.parent _ hi, hframe]
    rfl
  · rw [← hnames name]
    exact ⟨hkept.inner _ hi hinner name, hkept.names _ hi name⟩

/-! ### All scopes -/

/-- What becomes of the scopes of `s` when it becomes `s'`. -/
structure KeepsScopes (s s' : Store) : Prop where
  /-- No frame is lost. -/
  size : s.frames.size ≤ s'.frames.size
  parent : ∀ i < s.frames.size, s'.frames[i]?.map Frame.parent = s.frames[i]?.map Frame.parent
  root : ∀ i < s.frames.size, s'.root i = s.root i
  depth : ∀ i < s.frames.size, s'.depth i = s.depth i
  /-- A frame inside another one binds the same names. -/
  inner : ∀ i < s.frames.size, s.parent? i ≠ none →
    ∀ name, name ∈ (s'.bindings i).names ↔ name ∈ (s.bindings i).names
  /-- An outermost frame binds the same names at least. -/
  outermost : ∀ i < s.frames.size, s.parent? i = none →
    ∀ name ∈ (s.bindings i).names, name ∈ (s'.bindings i).names
  /-- A new frame is that of a call, and binds the formals of the closure that was called. -/
  fresh : ∀ i < s'.frames.size, s.frames.size ≤ i → ∃ c, MadeByCall s s' c i ∧ c.scope < i ∧
    s'.frames[i]?.map Frame.parent = some (some c.scope) ∧
    ∀ name, name ∈ (s'.bindings i).names ↔ name ∈ c.formals
  /-- A name that has a value in a scope keeps having one. -/
  bound : ∀ i < s.frames.size, ∀ name, (s.get? i name).isSome → (s'.get? i name).isSome
  /-- Every walk ends. -/
  walk : ∀ i < s'.frames.size, s'.Walk i (s'.chain i)

theorem Steps.keepsScopes (h : Steps s s') (hs : s.Nested) : s.KeepsScopes s' := by
  have hkept := h.keepsFrames
  constructor
  case size => exact hkept.size
  case parent => exact hkept.parent
  case root =>
    intro i hi
    rw [root, root, hkept.chain_eq hi]
  case depth =>
    intro i hi
    rw [depth, depth, hkept.chain_eq hi]
  case inner => exact fun i hi hp name => ⟨hkept.inner i hi hp name, hkept.names i hi name⟩
  case outermost => exact fun i hi _ => hkept.names i hi
  case fresh =>
    intro i hi hold
    obtain ⟨c, hmade⟩ := h.exists_madeByCall hold hi
    exact ⟨c, hmade, hmade.names_iff hs⟩
  case bound => exact fun i hi name => hkept.isSome_get? hi
  case walk => exact fun i hi => (h.nested hs).walk hi

end Store

end PocketLisp
