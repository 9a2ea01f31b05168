import PocketLisp.Expr
import PocketLisp.Store.Bindings

/-!
# The store

Scopes and closures. A scope is a frame of bindings inside another frame; frames are shared, so a
value assigned through one of the scopes that enclose it is seen by all of them.

## Main definitions

- `Frame`, `Closure`, `Store` — the frames and the closures that were made so far
- `Store.chain` — a frame and the frames around it, innermost first
- `Store.get?` — the value of a name in a scope
- `Store.lookup`, `Store.assign`, `Store.define` — the operations on bindings
- `Store.newFrame`, `Store.newClosure` — the operations that make something new

## Main statements

- `Store.parent?_lt` — the enclosing frame was made earlier
- `Store.chain_define` — binding a name moves no frame
- `Store.bindings_define` — binding a name changes the bindings of its frame alone

## Design notes

Frames and closures are named by their places and are never removed. A frame is made inside one
that is there already, so its parent has a smaller number; a parent that has not is disregarded,
which makes every walk through a store end.

Reading a name that no frame of a scope binds is no error: it binds the name to the empty list in
the outermost frame.
-/

namespace PocketLisp

/-- A place in the table of frames. -/
abbrev FrameId := Nat

/-- One scope: its own bindings, and the frame around it. -/
structure Frame where
  bindings : Bindings
  parent : Option FrameId
  deriving Inhabited

/-- A `lambda` together with the scope in which it was evaluated. -/
structure Closure where
  formals : List String
  body : Expr
  scope : FrameId
  deriving Inhabited

/-- The frames and the closures that were made so far. -/
structure Store where
  frames : Array Frame
  closures : Array Closure
  deriving Inhabited

namespace Store

/-- A store in which nothing was made yet. -/
def empty : Store := ⟨#[], #[]⟩

/-! ### Scopes -/

/-- The frame around a frame, if there is one. -/
def parent? (s : Store) (i : FrameId) : Option FrameId :=
  match s.frames[i]? with
  | none => none
  | some frame => frame.parent.filter (· < i)

/-- The enclosing frame was made earlier. -/
theorem parent?_lt {s : Store} {i p : FrameId} (h : s.parent? i = some p) : p < i := by
  unfold parent? at h
  split at h
  · cases h
  · exact of_decide_eq_true (Option.filter_eq_some_iff.1 h).2

/-- A frame and the frames around it, innermost first. -/
def chain (s : Store) (i : FrameId) : List FrameId :=
  match _h : s.parent? i with
  | none => [i]
  | some p => i :: s.chain p
termination_by i
decreasing_by exact parent?_lt _h

/-- The outermost frame of a scope. -/
def root (s : Store) (i : FrameId) : FrameId := (s.chain i).getLastD i

/-- The number of frames of a scope. -/
def depth (s : Store) (i : FrameId) : Nat := (s.chain i).length

/-! ### Bindings -/

/-- The bindings of a frame itself. -/
def bindings (s : Store) (i : FrameId) : Bindings :=
  match s.frames[i]? with
  | none => []
  | some frame => frame.bindings

/-- The innermost frame of a scope that binds `name`, and the value bound there. -/
def find? (s : Store) (i : FrameId) (name : String) : Option (FrameId × Value) :=
  (s.chain i).findSome? fun j => ((s.bindings j).get? name).map (j, ·)

/-- The value of a name in a scope. -/
def get? (s : Store) (i : FrameId) (name : String) : Option Value :=
  (s.find? i name).map Prod.snd

/-- Binds a name in a frame itself. -/
def define (s : Store) (i : FrameId) (name : String) (value : Value) : Store :=
  { s with
    frames := s.frames.modify i fun frame =>
      { frame with bindings := frame.bindings.set name value } }

theorem parent?_define (s : Store) (i j : FrameId) (name : String) (value : Value) :
    (s.define i name value).parent? j = s.parent? j := by
  by_cases h : i = j
  · subst h
    cases hf : s.frames[i]? <;> simp [parent?, define, Array.getElem?_modify, hf]
  · simp [parent?, define, Array.getElem?_modify, h]

/-- Binding a name moves no frame. -/
theorem chain_define (s : Store) (i j : FrameId) (name : String) (value : Value) :
    (s.define i name value).chain j = s.chain j := by
  induction j using Nat.strongRecOn with
  | ind j ih =>
    rw [chain, chain]
    split
    · next h =>
      rw [parent?_define] at h
      split
      · rfl
      · next h' => rw [h] at h'; cases h'
    · next p h =>
      rw [parent?_define] at h
      split
      · next h' => rw [h] at h'; cases h'
      · next q h' =>
        rw [h] at h'
        cases h'
        rw [ih p (parent?_lt h)]

/-- Binding a name changes the bindings of its frame alone. -/
theorem bindings_define (s : Store) (i j : FrameId) (name : String) (value : Value)
    (hi : i < s.frames.size) :
    (s.define i name value).bindings j =
      if i = j then (s.bindings j).set name value else s.bindings j := by
  by_cases h : i = j
  · subst h
    simp [bindings, define, Array.getElem?_modify, Array.getElem?_eq_getElem hi]
  · simp [bindings, define, Array.getElem?_modify, h]

/-- The value of a name in a scope. A name that nothing binds is bound to the empty list in the
outermost frame. -/
def lookup (s : Store) (i : FrameId) (name : String) : Value × Store :=
  match s.get? i name with
  | some value => (value, s)
  | none => (.nil, s.define (s.root i) name .nil)

/-- Gives a name a value in the innermost frame of a scope that binds it, or else in the
outermost. -/
def assign (s : Store) (i : FrameId) (name : String) (value : Value) : Store :=
  match s.find? i name with
  | some (j, _) => s.define j name value
  | none => s.define (s.root i) name value

/-! ### Making frames and closures -/

/-- Makes a frame. -/
def newFrame (s : Store) (bindings : Bindings) (parent : Option FrameId) : FrameId × Store :=
  (s.frames.size, { s with frames := s.frames.push ⟨bindings, parent⟩ })

/-- Makes a closure. -/
def newClosure (s : Store) (formals : List String) (body : Expr) (scope : FrameId) :
    ClosureId × Store :=
  (s.closures.size, { s with closures := s.closures.push ⟨formals, body, scope⟩ })

/-- The bindings of the primitive operations to their names. -/
def primitiveBindings : Bindings :=
  .ofPairs (Primitive.all.map fun p => (p.name, .primitive p))

end Store

end PocketLisp
