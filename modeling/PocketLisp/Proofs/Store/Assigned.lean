import Mathlib.Data.List.Basic
import PocketLisp.Proofs.Store.Shape

/-!
# Assigning and reading touch one binding

A name is assigned in one frame. Whoever comes to that frame first, on the way outwards, among those
that bind the name, sees the new value, and nobody sees anything else change. Reading a name that is
bound changes nothing.

## Main definitions

- `Store.Built` — the stores that the operations on frames make
- `Store.FoundAt`, `Store.FoundNowhere` — where a walk outwards comes to a name first, if anywhere
- `Store.AssignedAt` — the frame in which a name is assigned
- `Store.BindsOnly` — a store that differs from another in one binding alone
- `Store.Assigns`, `Store.LooksUp` — what comes of an assignment and of reading a name

## Main statements

- `Store.Built.nested` — in a store that is built, frames are nested
- `Store.Nested.find?_eq_some_iff`, `Store.Nested.find?_eq_none_iff` — what is found is what a walk
  comes to first
- `Store.Nested.find?_define_of_not_foundAt` — a new binding is not seen where a walk does not come
  to it first
- `Store.Nested.foundAt_define_of_assignedAt` — it is seen from where the name was assigned
- `Store.assign_and_lookup_touch_one` — assigning and reading, from every frame of every such store

## Design notes

Several hands may hold the same frame. What they hold is the number of the frame, so a copy of it is
no operation on the store.
-/

namespace PocketLisp

theorem Bindings.get?_eq_none_iff {b : Bindings} {name : String} :
    b.get? name = none ↔ name ∉ b.names := by
  rw [Bindings.mem_names_iff, Option.not_isSome_iff_eq_none]

namespace Store

variable {s s' : Store} {i j k : FrameId} {is is' : List FrameId} {name other : String}
  {v w : Value}

/-! ### Stores that are built -/

/-- The stores that come of making frames and closures and of binding, assigning and reading names,
always in frames that are there. -/
inductive Built : Store → Prop
  | empty : Built empty
  | root {s : Store} : Built s → Built (s.newFrame [] none).2
  | global {s : Store} : Built s → Built (s.newFrame primitiveBindings none).2
  | extend {s : Store} {i : FrameId} : Built s → i < s.frames.size →
      Built (s.newFrame [] (some i)).2
  | extendWith {s : Store} {i : FrameId} (pairs : List (String × Value)) : Built s →
      i < s.frames.size → Built (s.newFrame (.ofPairs pairs) (some i)).2
  | closure {s : Store} {i : FrameId} (formals : List String) (body : Expr) : Built s →
      i < s.frames.size → Built (s.newClosure formals body i).2
  | define {s : Store} {i : FrameId} (name : String) (v : Value) : Built s → i < s.frames.size →
      Built (s.define i name v)
  | assign {s : Store} {i : FrameId} (name : String) (v : Value) : Built s → i < s.frames.size →
      Built (s.assign i name v)
  | lookup {s : Store} {i : FrameId} (name : String) : Built s → i < s.frames.size →
      Built (s.lookup i name).2

/-- A frame that is made inside one that is there keeps frames nested. -/
theorem Nested.newFrame_some {b : Bindings} (hs : s.Nested) (hi : i < s.frames.size) :
    (s.newFrame b (some i)).2.Nested := by
  apply hs.newFrame
  rintro p ⟨⟩
  exact hi

/-- In a store that is built, frames are nested. -/
theorem Built.nested (h : s.Built) : s.Nested := by
  induction h with
  | empty => exact ⟨nofun, nofun⟩
  | root _ ih => exact ih.newFrame nofun
  | global _ ih => exact ih.newFrame nofun
  | extend _ hi ih => exact ih.newFrame_some hi
  | extendWith pairs _ hi ih => exact ih.newFrame_some hi
  | closure formals body _ hi ih => exact (Step.closure formals body hi).nested ih
  | define name v _ hi ih => exact ih.define
  | @assign s i name v _ hi ih => exact (steps_assign s i name v).nested ih
  | @lookup s i name _ hi ih => exact (steps_lookup s i name).nested ih

/-! ### Walks outwards -/

/-- Where frames are nested, a walk comes by the frames of the scope and by no others. -/
theorem Nested.eq_chain_of_walk (hs : s.Nested) (h : s.Walk i is) : is = s.chain i := by
  induction h with
  | outermost hframe hp => rw [chain_of_root ((hs.parent?_eq_parent hframe).trans hp)]
  | inside hframe hp _ ih => rw [chain_of_parent ((hs.parent?_eq_parent hframe).trans hp), ih]

theorem Nested.walk_iff (hs : s.Nested) (hi : i < s.frames.size) :
    s.Walk i is ↔ is = s.chain i := by
  constructor
  · exact hs.eq_chain_of_walk
  · rintro rfl
    exact hs.walk hi

/-- A walk outwards from frame `i` comes to frame `j` first among those that bind the name. -/
def FoundAt (s : Store) (i : FrameId) (name : String) (j : FrameId) : Prop :=
  ∃ inner outer, s.Walk i (inner ++ j :: outer) ∧ name ∈ (s.bindings j).names ∧
    ∀ k ∈ inner, name ∉ (s.bindings k).names

/-- A walk outwards from frame `i` comes to no frame that binds the name. -/
def FoundNowhere (s : Store) (i : FrameId) (name : String) : Prop :=
  ∃ is, s.Walk i is ∧ ∀ k ∈ is, name ∉ (s.bindings k).names

/-- A walk outwards from frame `i` ends in frame `j`. -/
def EndsIn (s : Store) (i j : FrameId) : Prop := ∃ inner, s.Walk i (inner ++ [j])

/-- A name is assigned from frame `i` in frame `j`: the first that binds it on the way outwards, or
the outermost one if none does. -/
def AssignedAt (s : Store) (i : FrameId) (name : String) (j : FrameId) : Prop :=
  s.FoundAt i name j ∨ s.FoundNowhere i name ∧ s.EndsIn i j

/-- What is found is the value in the frame that a walk comes to first. -/
theorem Nested.find?_eq_some_iff (hs : s.Nested) (hi : i < s.frames.size) :
    s.find? i name = some (j, v) ↔ s.FoundAt i name j ∧ (s.bindings j).get? name = some v := by
  rw [find?, List.findSome?_eq_some_iff]
  constructor
  · rintro ⟨inner, k, outer, hchain, hk, hinner⟩
    obtain ⟨w, hw, heq⟩ := Option.map_eq_some_iff.1 hk
    cases heq
    refine ⟨⟨inner, outer, (hs.walk_iff hi).2 hchain.symm, ?_, ?_⟩, hw⟩
    · exact Bindings.mem_names_iff.2 (Option.isSome_of_eq_some hw)
    · intro l hl
      exact Bindings.get?_eq_none_iff.1 (Option.map_eq_none_iff.1 (hinner l hl))
  · rintro ⟨⟨inner, outer, hwalk, -, hinner⟩, hv⟩
    refine ⟨inner, j, outer, (hs.eq_chain_of_walk hwalk).symm, by rw [hv]; rfl, ?_⟩
    intro l hl
    exact Option.map_eq_none_iff.2 (Bindings.get?_eq_none_iff.2 (hinner l hl))

/-- Nothing is found where a walk comes to no frame that binds the name. -/
theorem Nested.find?_eq_none_iff (hs : s.Nested) (hi : i < s.frames.size) :
    s.find? i name = none ↔ s.FoundNowhere i name := by
  simp only [find?, List.findSome?_eq_none_iff, Option.map_eq_none_iff, Bindings.get?_eq_none_iff]
  constructor
  · intro h
    exact ⟨s.chain i, hs.walk hi, h⟩
  · rintro ⟨is, hwalk, h⟩
    rwa [hs.eq_chain_of_walk hwalk] at h

/-- The frame that a walk comes to first holds the value of the name. -/
theorem Nested.exists_of_foundAt (hs : s.Nested) (hi : i < s.frames.size)
    (h : s.FoundAt i name j) : ∃ v, (s.bindings j).get? name = some v ∧
      s.find? i name = some (j, v) := by
  have ⟨_, _, _, hname, _⟩ := h
  obtain ⟨v, hv⟩ := Option.isSome_iff_exists.1 (Bindings.mem_names_iff.1 hname)
  exact ⟨v, hv, (hs.find?_eq_some_iff hi).2 ⟨h, hv⟩⟩

theorem Nested.exists_get?_of_foundAt (hs : s.Nested) (hi : i < s.frames.size)
    (h : s.FoundAt i name j) : ∃ v, (s.bindings j).get? name = some v ∧ s.get? i name = some v := by
  obtain ⟨v, hv, hfind⟩ := hs.exists_of_foundAt hi h
  refine ⟨v, hv, ?_⟩
  rw [get?, hfind]
  rfl

theorem Nested.get?_of_foundNowhere (hs : s.Nested) (hi : i < s.frames.size)
    (h : s.FoundNowhere i name) : s.get? i name = none := by
  rw [get?, (hs.find?_eq_none_iff hi).2 h]
  rfl

theorem Nested.endsIn_root (hs : s.Nested) (hi : i < s.frames.size) : s.EndsIn i (s.root i) := by
  refine ⟨(s.chain i).dropLast, (hs.walk_iff hi).2 ?_⟩
  rw [root, List.getLastD_eq_getLast?, List.getLast?_eq_some_getLast (s.chain_ne_nil i)]
  exact List.dropLast_append_getLast (s.chain_ne_nil i)

/-- A name is assigned in the frame of the value that is found, or else in the outermost one. -/
theorem Nested.assignedAt_target (hs : s.Nested) (hi : i < s.frames.size) (name : String) :
    s.AssignedAt i name (s.target i name) := by
  rw [target]
  cases h : s.find? i name with
  | none => exact .inr ⟨(hs.find?_eq_none_iff hi).1 h, hs.endsIn_root hi⟩
  | some jv => exact .inl ((hs.find?_eq_some_iff hi).1 h).1

theorem Nested.mem_chain_of_assignedAt (hs : s.Nested) (h : s.AssignedAt i name j) :
    j ∈ s.chain i := by
  obtain ⟨inner, outer, hwalk, -, -⟩ | ⟨-, inner, hwalk⟩ := h
  · rw [← hs.eq_chain_of_walk hwalk]
    exact List.mem_append_right inner List.mem_cons_self
  · rw [← hs.eq_chain_of_walk hwalk]
    exact List.mem_append_right inner List.mem_cons_self

/-- A name is assigned in a frame that is there. -/
theorem Nested.lt_of_assignedAt (hs : s.Nested) (hi : i < s.frames.size)
    (h : s.AssignedAt i name j) : j < s.frames.size :=
  Nat.lt_of_le_of_lt (le_of_mem_chain (hs.mem_chain_of_assignedAt h)) hi

/-! ### One binding -/

/-- The store `s'` is `s` with the name bound to the value in frame `i`, and nothing else is
different. -/
structure BindsOnly (s : Store) (i : FrameId) (name : String) (v : Value) (s' : Store) : Prop where
  bound : (s'.bindings i).get? name = some v
  otherNames : ∀ other, other ≠ name → (s'.bindings i).get? other = (s.bindings i).get? other
  parent : s'.frames[i]?.map Frame.parent = s.frames[i]?.map Frame.parent
  otherFrames : ∀ j, j ≠ i → s'.frames[j]? = s.frames[j]?
  closures : s'.closures = s.closures

theorem bindsOnly_define (hi : i < s.frames.size) (name : String) (v : Value) :
    s.BindsOnly i name v (s.define i name v) where
  bound := by rw [get?_bindings_define hi, if_pos ⟨rfl, rfl⟩]
  otherNames other hother := by rw [get?_bindings_define hi, if_neg fun h => hother h.2.symm]
  parent := map_parent_define s i i name v
  otherFrames j hj := by rw [define, Array.getElem?_modify, if_neg (Ne.symm hj)]
  closures := rfl

/-- Another name has the same value everywhere. -/
theorem get?_define_of_ne (hi : i < s.frames.size) (hother : other ≠ name) (j : FrameId) :
    (s.define i name v).get? j other = s.get? j other := by
  have hbindings : ∀ k,
      ((s.define i name v).bindings k).get? other = (s.bindings k).get? other := by
    intro k
    rw [get?_bindings_define hi, if_neg fun h => hother h.2.symm]
  rw [get?, get?, find?_congr (fun k => parent?_define s i k name v) hbindings]

theorem Nested.walk_define_iff (hs : s.Nested) (hj : j < s.frames.size) :
    (s.define i name v).Walk j is ↔ s.Walk j is := by
  have hj' : j < (s.define i name v).frames.size := by rwa [size_define]
  rw [hs.define.walk_iff hj', hs.walk_iff hj, chain_define]

/-- The new value is seen where a walk comes to it first. -/
theorem Nested.get?_define_of_foundAt (hs : s.Nested) (hi : i < s.frames.size)
    (hj : j < s.frames.size) (h : (s.define i name v).FoundAt j name i) :
    (s.define i name v).get? j name = some v := by
  have hj' : j < (s.define i name v).frames.size := by rwa [size_define]
  have hbound := (bindsOnly_define hi name v).bound
  rw [get?, (hs.define.find?_eq_some_iff hj').2 ⟨h, hbound⟩]
  rfl

/-- The new value is not seen where a walk does not come to it first. -/
theorem Nested.find?_define_of_not_foundAt (hs : s.Nested) (hi : i < s.frames.size)
    (hj : j < s.frames.size) (h : ¬ (s.define i name v).FoundAt j name i) :
    (s.define i name v).find? j name = s.find? j name := by
  have hj' : j < (s.define i name v).frames.size := by rwa [size_define]
  -- What binds no name now bound none before.
  have hunbound : ∀ k, name ∉ ((s.define i name v).bindings k).names →
      name ∉ (s.bindings k).names := by
    intro k hk hname
    exact hk ((mem_names_define hi).2 (.inr hname))
  cases hfind : (s.define i name v).find? j name with
  | none =>
    obtain ⟨is, hwalk, his⟩ := (hs.define.find?_eq_none_iff hj').1 hfind
    refine Eq.symm ((hs.find?_eq_none_iff hj).2 ⟨is, (hs.walk_define_iff hj).1 hwalk, ?_⟩)
    intro k hk
    exact hunbound k (his k hk)
  | some kw =>
    obtain ⟨k, w⟩ := kw
    obtain ⟨hfound, hw⟩ := (hs.define.find?_eq_some_iff hj').1 hfind
    have hik : i ≠ k := fun hik => h (hik ▸ hfound)
    rw [get?_bindings_define hi, if_neg fun hsame => hik hsame.1] at hw
    obtain ⟨inner, outer, hwalk, -, hinner⟩ := hfound
    refine Eq.symm ((hs.find?_eq_some_iff hj).2 ⟨⟨inner, outer, ?_, ?_, ?_⟩, hw⟩)
    · exact (hs.walk_define_iff hj).1 hwalk
    · exact Bindings.mem_names_iff.2 (Option.isSome_of_eq_some hw)
    · intro l hl
      exact hunbound l (hinner l hl)

/-- A walk comes first to the frame in which the name was assigned. -/
theorem Nested.foundAt_define_of_assignedAt (hs : s.Nested) (hi : i < s.frames.size)
    (h : s.AssignedAt i name j) : (s.define j name v).FoundAt i name j := by
  have hi' : i < (s.define j name v).frames.size := by rwa [size_define]
  have hj := hs.lt_of_assignedAt hi h
  have hmem := hs.mem_chain_of_assignedAt h
  by_contra hnot
  -- Then the same would be found as before, and `j` now binds the name.
  have hfind := hs.find?_define_of_not_foundAt hj hi hnot
  obtain hfound | ⟨hnowhere, -⟩ := h
  · obtain ⟨w, -, hw⟩ := hs.exists_of_foundAt hi hfound
    rw [hw] at hfind
    exact hnot ((hs.define.find?_eq_some_iff hi').1 hfind).1
  · rw [(hs.find?_eq_none_iff hi).2 hnowhere] at hfind
    obtain ⟨is, hwalk, his⟩ := (hs.define.find?_eq_none_iff hi').1 hfind
    rw [hs.eq_chain_of_walk ((hs.walk_define_iff hi).1 hwalk)] at his
    exact his j hmem ((mem_names_define hj).2 (.inl ⟨rfl, rfl⟩))

/-! ### Assigning and reading -/

/-- What comes of assigning a name from frame `i`, when it is assigned in frame `target`. -/
structure Assigns (s : Store) (i : FrameId) (name : String) (v : Value) (target : FrameId) :
    Prop where
  assigned : s.AssignedAt i name target
  bindsOnly : s.BindsOnly target name v (s.assign i name v)
  /-- The value is seen from the frames from which a walk comes to it first. -/
  seen : ∀ j < s.frames.size, (s.assign i name v).FoundAt j name target →
    (s.assign i name v).get? j name = some v
  /-- Nothing else is seen to change. -/
  unseen : ∀ j < s.frames.size, ∀ other,
    ¬ (other = name ∧ (s.assign i name v).FoundAt j name target) →
      (s.assign i name v).get? j other = s.get? j other
  readBack : (s.assign i name v).get? i name = some v

/-- What comes of reading a name from frame `i`. -/
structure LooksUp (s : Store) (i : FrameId) (name : String) : Prop where
  /-- A name is bound in a first frame or in none. -/
  found : (∃ j, s.FoundAt i name j) ∨ s.FoundNowhere i name
  /-- A name that is bound is read as it is, and nothing changes. -/
  bound : ∀ j, s.FoundAt i name j → ∃ w, (s.bindings j).get? name = some w ∧
    s.get? i name = some w ∧ s.lookup i name = (w, s)
  /-- Any other name is read as the empty list, which the outermost frame then binds it to. -/
  unbound : s.FoundNowhere i name → ∃ root, s.get? i name = none ∧ s.EndsIn i root ∧
    (s.lookup i name).1 = .nil ∧ s.BindsOnly root name .nil (s.lookup i name).2
  readBack : (s.lookup i name).2.get? i name = some (s.lookup i name).1

theorem Nested.assigns (hs : s.Nested) (hi : i < s.frames.size) (name : String) (v : Value) :
    s.Assigns i name v (s.target i name) := by
  have hassigned := hs.assignedAt_target hi name
  have htarget := hs.lt_of_assignedAt hi hassigned
  constructor
  case assigned => exact hassigned
  case bindsOnly => exact assign_eq s i name v ▸ bindsOnly_define htarget name v
  case seen =>
    rw [assign_eq]
    intro j hj hfound
    exact hs.get?_define_of_foundAt htarget hj hfound
  case unseen =>
    rw [assign_eq]
    intro j hj other h
    by_cases hother : other = name
    · subst hother
      rw [get?, get?, hs.find?_define_of_not_foundAt htarget hj fun hfound => h ⟨rfl, hfound⟩]
    · exact get?_define_of_ne htarget hother j
  case readBack =>
    rw [assign_eq]
    exact hs.get?_define_of_foundAt htarget hi (hs.foundAt_define_of_assignedAt hi hassigned)

theorem Nested.looksUp (hs : s.Nested) (hi : i < s.frames.size) (name : String) :
    s.LooksUp i name := by
  have hassigned := hs.assignedAt_target hi name
  have hfound : (∃ j, s.FoundAt i name j) ∨ s.FoundNowhere i name :=
    hassigned.imp (fun h => ⟨_, h⟩) And.left
  constructor
  case found => exact hfound
  case bound =>
    intro j hj
    obtain ⟨w, hw, hget⟩ := hs.exists_get?_of_foundAt hi hj
    exact ⟨w, hw, hget, lookup_of_some hget⟩
  case unbound =>
    intro hnowhere
    have hget := hs.get?_of_foundNowhere hi hnowhere
    refine ⟨s.target i name, hget, ?_, ?_, ?_⟩
    · obtain hbound | ⟨-, hends⟩ := hassigned
      · obtain ⟨w, -, hw⟩ := hs.exists_get?_of_foundAt hi hbound
        rw [hget] at hw
        cases hw
      · exact hends
    · rw [lookup_of_none hget]
    · rw [lookup_of_none hget]
      exact (hs.assigns hi name .nil).bindsOnly
  case readBack =>
    obtain ⟨j, hj⟩ | hnowhere := hfound
    · obtain ⟨w, -, hget⟩ := hs.exists_get?_of_foundAt hi hj
      rw [lookup_of_some hget]
      exact hget
    · rw [lookup_of_none (hs.get?_of_foundNowhere hi hnowhere)]
      exact (hs.assigns hi name .nil).readBack

/-- In every store that is built, a name is assigned from a frame in the first frame that binds it
on the way outwards, or in the outermost one, where nothing else changes; the value is seen from the
frames from which a walk comes there first, and nothing else is seen to change. Reading a name
changes nothing if it is bound on the way outwards, and else binds it to the empty list in the
outermost frame. -/
theorem assign_and_lookup_touch_one (hs : s.Built) (hi : i < s.frames.size) (name : String)
    (v : Value) : (∃ target, s.Assigns i name v target) ∧ s.LooksUp i name :=
  ⟨⟨_, hs.nested.assigns hi name v⟩, hs.nested.looksUp hi name⟩

/-- Three frames, each inside the one before it. The first two bind the name `x`. -/
def threeFrames : Store :=
  (((((empty.newFrame [] none).2.newFrame [] (some 0)).2.newFrame [] (some 1)).2.define 0 "x"
    (.number 1)).define 1 "x" (.number 2))

theorem built_threeFrames : threeFrames.Built := by
  have hfirst : (empty.newFrame [] none).2.Built := .root .empty
  have hsecond := hfirst.extend (i := 0) (by decide)
  have hthird := hsecond.extend (i := 1) (by decide)
  exact (hthird.define (i := 0) "x" (.number 1) (by decide)).define "x" (.number 2) (by decide)

theorem target_threeFrames : threeFrames.target 2 "x" = 1 := by
  have hchain : threeFrames.chain 2 = [2, 1, 0] := by
    rw [chain_of_parent (p := 1) rfl, chain_of_parent (p := 0) rfl, chain_of_root rfl]
  rw [target, find?, hchain]
  rfl

/-- From the third frame, `x` is assigned in the second, and the first does not see it. -/
theorem assign_and_lookup_touch_one_threeFrames :
    (∃ target, threeFrames.Assigns 2 "x" (.number 3) target) ∧ threeFrames.LooksUp 2 "x" ∧
    (threeFrames.assign 2 "x" (.number 3)).get? 2 "x" = some (.number 3) ∧
    (threeFrames.assign 2 "x" (.number 3)).get? 0 "x" = some (.number 1) := by
  obtain ⟨⟨target, hassigns⟩, hreads⟩ :=
    assign_and_lookup_touch_one built_threeFrames (i := 2) (by decide) "x" (.number 3)
  refine ⟨⟨target, hassigns⟩, hreads, hassigns.readBack, ?_⟩
  rw [assign_eq, target_threeFrames, get?, find?, chain_define, chain_of_root rfl]
  rfl

end Store

end PocketLisp
