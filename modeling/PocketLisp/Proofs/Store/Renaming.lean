import Mathlib.Order.Basic
import PocketLisp.Proofs.Code.Renaming
import PocketLisp.Proofs.Store.Shape

/-!
# Stores that differ in the name of a formal

Where a formal of a `lambda` has another name, the frames of its calls bind that name instead, and
the closures that are made there have other code. All the rest is the same: walks through scopes
come by the same frames and end with the same values.

## Main definitions

- `Bindings.rename` — the bindings with another name for one of them
- `Zone.Frames` — how the bindings of a frame differ
- `Zones` — where the frames made so far stand
- `Store.Renamed` — two stores that differ in this way

## Main statements

- `Zone.Codes.enter` — a call makes such a frame, in which code differs in such a way
- `Store.Renamed.walk` — a name is found with the same value, and assigned in the same frame
- `Store.Renamed.lookup`, `Store.Renamed.assign`, `Store.Renamed.newClosure`,
  `Store.Renamed.newFrame` — the operations on stores keep them so
-/

namespace PocketLisp

variable {x y : String}

/-! ### Bindings -/

namespace Bindings

variable {b : Bindings} {name : String} {v : Value}

/-- The bindings with `y` in place of the name `x`. -/
def rename (x y : String) (b : Bindings) : Bindings := b.map (Prod.map (renameName x y) id)

theorem not_mem_names_cons {nv : String × Value} :
    y ∉ names (nv :: b) ↔ nv.1 ≠ y ∧ y ∉ b.names := by
  rw [names, List.map_cons, List.mem_cons, not_or, ne_comm]
  rfl

theorem rename_of_not_mem (h : x ∉ b.names) : b.rename x y = b := by
  induction b with
  | nil => rfl
  | cons nv b ih =>
    obtain ⟨hn, hb⟩ := not_mem_names_cons.1 h
    rw [rename] at ih
    rw [rename, List.map_cons, ih hb, Prod.map, renameName_of_ne hn]
    rfl

theorem get?_rename (hb : y ∉ b.names) (hname : name ≠ y) :
    (b.rename x y).get? (renameName x y name) = b.get? name := by
  induction b with
  | nil => rfl
  | cons nv b ih =>
    obtain ⟨n, v⟩ := nv
    obtain ⟨hn, hb⟩ := not_mem_names_cons.1 hb
    rw [rename, List.map_cons, Prod.map_apply, get?, get?, ← ih hb]
    simp only [renameName_inj hn hname, id_eq]
    rfl

theorem set_rename (hb : y ∉ b.names) (hname : name ≠ y) :
    (b.rename x y).set (renameName x y name) v = (b.set name v).rename x y := by
  induction b with
  | nil => rfl
  | cons nv b ih =>
    obtain ⟨n, w⟩ := nv
    obtain ⟨hn, hb⟩ := not_mem_names_cons.1 hb
    have ih := ih hb
    rw [rename] at ih
    rw [rename, List.map_cons, Prod.map_apply, set, set, ih]
    simp only [renameName_inj hn hname]
    split
    · rfl
    · rfl

theorem foldl_set_rename {pairs : List (String × Value)} (hb : y ∉ b.names)
    (hpairs : y ∉ names pairs) :
    (pairs.map (Prod.map (renameName x y) id)).foldl (fun b (name, value) => b.set name value)
        (b.rename x y) =
      (pairs.foldl (fun b (name, value) => b.set name value) b).rename x y := by
  induction pairs generalizing b with
  | nil => rfl
  | cons nv pairs ih =>
    obtain ⟨n, v⟩ := nv
    obtain ⟨hn, hpairs⟩ := not_mem_names_cons.1 hpairs
    have hset : y ∉ (b.set n v).names := by
      rw [mem_names_set, not_or]
      exact ⟨hn, hb⟩
    rw [List.map_cons, List.foldl_cons, List.foldl_cons, ← ih hset hpairs]
    dsimp only [Prod.map_apply, id_eq]
    rw [set_rename hb hn]

/-- Renamed formals are bound like those with the old name. -/
theorem ofPairs_zip_rename {formals : List String} {args : List Value} (h : y ∉ formals)
    (hlength : formals.length = args.length) :
    ofPairs ((formals.map (renameName x y)).zip args) =
      (ofPairs (formals.zip args)).rename x y := by
  have hpairs : y ∉ names (formals.zip args) := by
    rwa [names, List.map_fst_zip (Nat.le_of_eq hlength)]
  rw [List.zip_map_left]
  exact foldl_set_rename (b := []) List.not_mem_nil hpairs

theorem mem_names_set_of_mem {other : String} (h : name ∈ b.names) :
    other ∈ (b.set name v).names ↔ other ∈ b.names := by
  rw [mem_names_set, or_iff_right_iff_imp]
  rintro rfl
  exact h

end Bindings

/-! ### Frames -/

namespace Zone

/-- How the bindings of a frame differ, given where the frame stands, and before that the frame
around it. The frame of a call of the `lambda` binds the formal, and so does that of a `lambda`
within it that has the same formal. -/
inductive Frames (x y : String) : Option Zone → Zone → Bindings → Bindings → Prop
  | outermost {b : Bindings} : Frames x y none outside b b
  | outside {b : Bindings} : Frames x y (some outside) outside b b
  | renamed {b : Bindings} : x ∈ b.names → y ∉ b.names →
      Frames x y (some outside) renamed b (b.rename x y)
  | inner {b : Bindings} : x ∉ b.names → y ∉ b.names → Frames x y (some renamed) renamed b b
  | shadowing {b : Bindings} : x ∈ b.names → y ∉ b.names → Frames x y (some renamed) shadowed b b
  | shadowed {b : Bindings} : y ∉ b.names → Frames x y (some shadowed) shadowed b b

variable {zone outer : Zone} {around : Option Zone} {b b' : Bindings} {name name' : String}

theorem Frames.eq_of_outside (h : Zone.outside.Frames x y around b b') : b' = b := by
  cases h with
  | outermost => rfl
  | outside => rfl

/-- Names that correspond have the same value in a frame. -/
theorem Frames.get?_eq (h : Frames x y around zone b b') (hname : zone.Names x y name name') :
    b'.get? name' = b.get? name := by
  cases h with
  | outermost | outside | shadowing | shadowed =>
    first
    | rw [show name' = name from hname]
    | rw [hname.2]
  | renamed _ hy =>
    obtain ⟨hne, rfl⟩ := hname
    exact Bindings.get?_rename hy hne
  | inner hx hy =>
    obtain ⟨hne, rfl⟩ := hname
    have heq := Bindings.get?_rename (x := x) hy hne
    rwa [Bindings.rename_of_not_mem hx] at heq

/-- Names that correspond, and are not bound in a frame, correspond in the frame around it. -/
theorem Frames.names_outer (h : Frames x y (some outer) zone b b')
    (hname : zone.Names x y name name') (hunbound : name ∉ b.names) :
    outer.Names x y name name' := by
  cases h with
  | outside | inner | shadowed => exact hname
  | renamed hx _ =>
    obtain ⟨_, rfl⟩ := hname
    refine renameName_of_ne ?_
    rintro rfl
    exact hunbound hx
  | shadowing hx _ =>
    obtain ⟨hne, rfl⟩ := hname
    refine ⟨hne, (renameName_of_ne ?_).symm⟩
    rintro rfl
    exact hunbound hx

/-- Giving corresponding names the same value changes corresponding frames in the same way. Within
the `lambda` this needs a name that is bound there. -/
theorem Frames.set (h : Frames x y around zone b b') (hname : zone.Names x y name name')
    (hbound : name ∈ b.names ∨ around = none) (v : Value) :
    Frames x y around zone (b.set name v) (b'.set name' v) := by
  have hnames (hmem : name ∈ b.names) (other : String) :
      other ∈ (b.set name v).names ↔ other ∈ b.names := Bindings.mem_names_set_of_mem hmem
  cases h with
  | outermost =>
    cases hname
    exact .outermost
  | outside =>
    cases hname
    exact .outside
  | renamed hx hy =>
    obtain ⟨hne, rfl⟩ := hname
    have hmem := hbound.resolve_right nofun
    rw [Bindings.set_rename hy hne]
    exact .renamed ((hnames hmem _).2 hx) (mt (hnames hmem _).1 hy)
  | inner hx hy =>
    obtain ⟨_, rfl⟩ := hname
    have hmem := hbound.resolve_right nofun
    have hne : name ≠ x := by
      rintro rfl
      exact hx hmem
    rw [renameName_of_ne hne]
    exact .inner (mt (hnames hmem _).1 hx) (mt (hnames hmem _).1 hy)
  | shadowing hx hy =>
    obtain ⟨_, rfl⟩ := hname
    have hmem := hbound.resolve_right nofun
    exact .shadowing ((hnames hmem _).2 hx) (mt (hnames hmem _).1 hy)
  | shadowed hy =>
    obtain ⟨_, rfl⟩ := hname
    have hmem := hbound.resolve_right nofun
    exact .shadowed (mt (hnames hmem _).1 hy)

/-- A call of a closure makes a frame, in which the body is evaluated. -/
theorem Codes.enter {formals formals' : List String} {body body' : Expr}
    (h : zone.Codes x y (.lambda formals body) (.lambda formals' body')) :
    formals.length = formals'.length ∧ ∃ inner, inner.Codes x y body body' ∧
      ∀ args : List Value, formals.length = args.length → Frames x y (some zone) inner
        (.ofPairs (formals.zip args)) (.ofPairs (formals'.zip args)) := by
  have hnames {args : List Value} (hlength : formals.length = args.length) (name : String) :
      name ∈ (Bindings.ofPairs (formals.zip args)).names ↔ name ∈ formals :=
    Bindings.mem_names_ofPairs_zip hlength
  cases zone with
  | outside =>
    rcases h with heq | h
    · cases heq
      exact ⟨rfl, .outside, .inl rfl, fun args _ => .outside⟩
    · cases h with
      | here hx hy =>
        obtain ⟨hformals, hbody⟩ := Expr.avoids_lambda.1 hy
        refine ⟨(List.length_map _).symm, .renamed, ⟨hbody, rfl⟩, fun args hlength => ?_⟩
        rw [Bindings.ofPairs_zip_rename hformals hlength]
        exact .renamed ((hnames hlength x).2 hx) (mt (hnames hlength y).1 hformals)
      | body h => exact ⟨rfl, .outside, .inr h, fun args _ => .outside⟩
  | renamed =>
    obtain ⟨hy, heq⟩ := h
    obtain ⟨hformals, hbody⟩ := Expr.avoids_lambda.1 hy
    rw [Expr.rename] at heq
    cases heq
    by_cases hx : x ∈ formals
    · rw [if_pos hx]
      refine ⟨rfl, .shadowed, ⟨hbody, rfl⟩, fun args hlength => ?_⟩
      exact .shadowing ((hnames hlength x).2 hx) (mt (hnames hlength y).1 hformals)
    · rw [if_neg hx]
      refine ⟨rfl, .renamed, ⟨hbody, rfl⟩, fun args hlength => ?_⟩
      exact .inner (mt (hnames hlength x).1 hx) (mt (hnames hlength y).1 hformals)
  | shadowed =>
    obtain ⟨hy, heq⟩ := h
    obtain ⟨hformals, hbody⟩ := Expr.avoids_lambda.1 hy
    cases heq
    refine ⟨rfl, .shadowed, ⟨hbody, rfl⟩, fun args hlength => ?_⟩
    exact .shadowed (mt (hnames hlength y).1 hformals)

end Zone

/-! ### Stores -/

/-- Where the frames made so far stand. -/
structure Zones where
  array : Array Zone

namespace Zones

/-- Where a frame stands, if it was made. -/
def zone? (w : Zones) (i : FrameId) : Option Zone := w.array[i]?

/-- With a new frame. -/
def push (w : Zones) (zone : Zone) : Zones := ⟨w.array.push zone⟩

instance : Preorder Zones where
  le w w' := ∀ i zone, w.zone? i = some zone → w'.zone? i = some zone
  le_refl _ _ _ h := h
  le_trans _ _ _ h h' i zone hzone := h' i zone (h i zone hzone)

variable {w w' : Zones} {zone : Zone} {i : FrameId}

theorem zone?_push (w : Zones) (zone : Zone) (i : FrameId) :
    (w.push zone).zone? i = if i = w.array.size then some zone else w.zone? i :=
  Array.getElem?_push

theorem lt_of_zone? (h : w.zone? i = some zone) : i < w.array.size :=
  (Array.getElem?_eq_some_iff.1 h).1

theorem exists_zone? (h : i < w.array.size) : ∃ zone, w.zone? i = some zone :=
  ⟨_, Array.getElem?_eq_getElem h⟩

theorem zone?_push_of_lt (h : i < w.array.size) : (w.push zone).zone? i = w.zone? i := by
  rw [zone?_push, if_neg (Nat.ne_of_lt h)]

theorem le_push (w : Zones) (zone : Zone) : w ≤ w.push zone := by
  intro i other hother
  rwa [zone?_push_of_lt (lt_of_zone? hother)]

end Zones

/-- How a closure differs. -/
def Closure.Renamed (x y : String) (w : Zones) (c c' : Closure) : Prop :=
  c'.scope = c.scope ∧ ∃ zone, w.zone? c.scope = some zone ∧
    zone.Codes x y (.lambda c.formals c.body) (.lambda c'.formals c'.body)

theorem Closure.Renamed.mono {w w' : Zones} {c c' : Closure} (hle : w ≤ w')
    (h : c.Renamed x y w c') : c.Renamed x y w' c' := by
  obtain ⟨hscope, zone, hzone, hcode⟩ := h
  exact ⟨hscope, zone, hle _ _ hzone, hcode⟩

namespace Store

/-- The same frames inside the same frames, and as many closures, made in the same scopes. What the
frames bind, and the code of the closures, differs as they stand to the `lambda`. -/
structure Renamed (x y : String) (w : Zones) (s s' : Store) : Prop where
  size : w.array.size = s.frames.size
  parents : ∀ i : FrameId, s'.frames[i]?.map Frame.parent = s.frames[i]?.map Frame.parent
  frame : ∀ i zone, w.zone? i = some zone →
    zone.Frames x y ((s.parent? i).bind w.zone?) (s.bindings i) (s'.bindings i)
  closure : ∀ id : ClosureId,
    Option.Rel (Closure.Renamed x y w) s.closures[id]? s'.closures[id]?

variable {w w' : Zones} {s s' : Store} {i j : FrameId} {zone : Zone} {name name' : String}
  {v : Value}

namespace Renamed

theorem parent? (h : s.Renamed x y w s') (i : FrameId) : s'.parent? i = s.parent? i := by
  rw [parent?_eq, parent?_eq, h.parents]

theorem size_frames (h : s.Renamed x y w s') : s.frames.size = s'.frames.size :=
  size_eq_of_parents fun i => (h.parents i).symm

/-- Walks for names that correspond come by the same frames and find the same value, and the names
correspond in the frame where the name is assigned. -/
theorem walk (h : Renamed x y w s s') (hzone : w.zone? i = some zone)
    (hname : zone.Names x y name name') :
    s'.find? i name' = s.find? i name ∧ s'.target i name' = s.target i name ∧
      ∃ zone', w.zone? (s.target i name) = some zone' ∧ zone'.Names x y name name' := by
  induction i using Nat.strongRecOn generalizing zone with
  | ind i ih =>
    have hframe := h.frame i zone hzone
    have hget := hframe.get?_eq hname
    cases hp : s.parent? i with
    | none =>
      have hp' := (h.parent? i).trans hp
      rw [find?_of_root hp, find?_of_root hp', target_of_root hp, target_of_root hp', hget]
      exact ⟨rfl, rfl, zone, hzone, hname⟩
    | some p =>
      have hp' := (h.parent? i).trans hp
      cases hb : (s.bindings i).get? name with
      | some v =>
        have hb' := hget.trans hb
        rw [find?_of_bound hb, find?_of_bound hb', target_of_bound hb, target_of_bound hb']
        exact ⟨rfl, rfl, zone, hzone, hname⟩
      | none =>
        have hb' := hget.trans hb
        rw [find?_of_unbound hp hb, find?_of_unbound hp' hb', target_of_unbound hp hb,
          target_of_unbound hp' hb']
        have hlt := parent?_lt hp
        obtain ⟨outer, houter⟩ := Zones.exists_zone? (Nat.lt_trans hlt (Zones.lt_of_zone? hzone))
        rw [hp, Option.bind_some, houter] at hframe
        refine ih p hlt houter (hframe.names_outer hname ?_)
        rw [Bindings.mem_names_iff, hb]
        exact Bool.false_ne_true

/-- Giving corresponding names the same value. -/
theorem define (h : Renamed x y w s s') (hzone : w.zone? i = some zone)
    (hname : zone.Names x y name name')
    (hbound : name ∈ (s.bindings i).names ∨ s.parent? i = none) (v : Value) :
    Renamed x y w (s.define i name v) (s'.define i name' v) where
  size := by rw [size_define, h.size]
  parents j := by rw [map_parent_define, map_parent_define, h.parents]
  frame j zone' hzone' := by
    have hi : i < s.frames.size := h.size ▸ Zones.lt_of_zone? hzone
    have hi' : i < s'.frames.size := h.size_frames ▸ hi
    have hframe := h.frame j zone' hzone'
    rw [parent?_define, bindings_define _ _ _ _ _ hi, bindings_define _ _ _ _ _ hi']
    by_cases hj : i = j
    · subst hj
      cases hzone.symm.trans hzone'
      rw [if_pos rfl, if_pos rfl]
      exact hframe.set hname (hbound.imp_right fun hp => by rw [hp]; rfl) v
    · rw [if_neg hj, if_neg hj]
      exact hframe
  closure := h.closure

theorem assign (h : Renamed x y w s s') (hzone : w.zone? i = some zone)
    (hname : zone.Names x y name name') (v : Value) :
    Renamed x y w (s.assign i name v) (s'.assign i name' v) := by
  obtain ⟨-, htarget, zone', hzone', hname'⟩ := h.walk hzone hname
  rw [assign_eq, assign_eq, htarget]
  exact h.define hzone' hname' (mem_names_target_or s i name) v

theorem lookup (h : Renamed x y w s s') (hzone : w.zone? i = some zone)
    (hname : zone.Names x y name name') :
    (s.lookup i name).1 = (s'.lookup i name').1 ∧
      Renamed x y w (s.lookup i name).2 (s'.lookup i name').2 := by
  have hget : s'.get? i name' = s.get? i name := by
    rw [get?, get?, (h.walk hzone hname).1]
  cases hv : s.get? i name with
  | some v =>
    rw [lookup_of_some hv, lookup_of_some (hget.trans hv)]
    exact ⟨rfl, h⟩
  | none =>
    rw [lookup_of_none hv, lookup_of_none (hget.trans hv)]
    exact ⟨rfl, h.assign hzone hname .nil⟩

/-! ### Making frames and closures -/

theorem size_closures (h : Renamed x y w s s') : s.closures.size = s'.closures.size := by
  refine size_eq_of_getElem?_eq_none_iff fun id => ?_
  have hrel := h.closure id
  generalize s.closures[id]? = c, s'.closures[id]? = c' at hrel ⊢
  cases hrel with
  | none => simp
  | some _ => simp

/-- Making closures that correspond. -/
theorem newClosure {formals formals' : List String} {body body' : Expr}
    (h : Renamed x y w s s') (hzone : w.zone? i = some zone)
    (hcode : zone.Codes x y (.lambda formals body) (.lambda formals' body')) :
    (s.newClosure formals body i).1 = (s'.newClosure formals' body' i).1 ∧
      Renamed x y w (s.newClosure formals body i).2 (s'.newClosure formals' body' i).2 := by
  refine ⟨h.size_closures, h.size, h.parents, h.frame, fun id => ?_⟩
  rw [Store.newClosure, Store.newClosure, Array.getElem?_push, Array.getElem?_push,
    h.size_closures]
  split
  · exact .some ⟨rfl, zone, hzone, hcode⟩
  · exact h.closure id

/-- Making frames that correspond. -/
theorem newFrame {b b' : Bindings} {inner : Zone} (h : Renamed x y w s s')
    (hzone : w.zone? i = some zone) (hframe : inner.Frames x y (some zone) b b') :
    (s.newFrame b (some i)).1 = (s'.newFrame b' (some i)).1 ∧
      (w.push inner).zone? (s.newFrame b (some i)).1 = some inner ∧
      Renamed x y (w.push inner) (s.newFrame b (some i)).2 (s'.newFrame b' (some i)).2 := by
  refine ⟨h.size_frames, ?_, ?_⟩
  · rw [Zones.zone?_push]
    exact if_pos h.size.symm
  constructor
  case size => rw [Zones.push, Array.size_push, size_newFrame, h.size]
  case parents => exact map_parent_newFrame h.parents b b' (some i)
  case frame =>
    intro j zone' hzone'
    rw [bindings_newFrame, bindings_newFrame, ← h.size_frames]
    by_cases hj : j = s.frames.size
    · -- The new frame stands inside one that was there.
      rw [Zones.zone?_push, if_pos (hj.trans h.size.symm)] at hzone'
      cases hzone'
      have hi := Zones.lt_of_zone? hzone
      have hparent : (s.newFrame b (some i)).2.parent? j = some i := by
        rw [hj, parent?_newFrame_self, Option.filter_some, if_pos]
        rwa [decide_eq_true_iff, ← h.size]
      rw [if_pos hj, if_pos hj, hparent, Option.bind_some, Zones.zone?_push_of_lt hi, hzone]
      exact hframe
    · rw [Zones.zone?_push, if_neg (h.size ▸ hj)] at hzone'
      have houter : (s.parent? j).bind (w.push inner).zone? = (s.parent? j).bind w.zone? := by
        cases hp : s.parent? j with
        | none => rfl
        | some p =>
          exact Zones.zone?_push_of_lt (Nat.lt_trans (parent?_lt hp) (Zones.lt_of_zone? hzone'))
      rw [if_neg hj, if_neg hj, parent?_newFrame_of_ne hj, houter]
      exact h.frame j zone' hzone'
  case closure =>
    intro id
    have hrel := h.closure id
    change Option.Rel _ s.closures[id]? s'.closures[id]?
    generalize s.closures[id]? = c, s'.closures[id]? = c' at hrel ⊢
    cases hrel with
    | none => exact .none
    | some hc => exact .some (hc.mono (Zones.le_push w inner))

end Renamed

/-- Before the `lambda` is evaluated, there is no difference. -/
theorem Nested.renamed (h : s.Nested) :
    ∃ w : Zones, (∀ i < s.frames.size, w.zone? i = some .outside) ∧ Renamed x y w s s := by
  have hzone : ∀ i < s.frames.size,
      (Zones.mk (.replicate s.frames.size .outside)).zone? i = some .outside := by
    intro i hi
    simp [Zones.zone?, hi]
  refine ⟨_, hzone, ?_⟩
  constructor
  case size => exact Array.size_replicate
  case parents => exact fun _ => rfl
  case frame =>
    intro i zone hi
    have hlt : i < s.frames.size := by simpa using Zones.lt_of_zone? hi
    rw [hzone i hlt] at hi
    cases hi
    cases hp : s.parent? i with
    | none => exact .outermost
    | some p =>
      rw [Option.bind_some, hzone p (Nat.lt_trans (parent?_lt hp) hlt)]
      exact .outside
  case closure =>
    intro id
    cases hc : s.closures[id]? with
    | none => exact .none
    | some c =>
      have hscope := h.scope c (Array.mem_of_getElem? hc)
      exact .some ⟨rfl, .outside, hzone _ hscope, .inl rfl⟩

end Store

end PocketLisp
