import PocketLisp.Proofs.Eval.Related
import PocketLisp.Proofs.Eval.Scopes
import PocketLisp.Proofs.Store.Renaming

/-!
# Renaming a formal does not change a program

Names are resolved where code stands, not where it is called from. So a formal of a `lambda` may get
any other name that does not occur there, whatever that name means elsewhere.

## Main definitions

- `renamedFormal` — the code before and after, side by side
- `Store.RenamedSince` — what may differ in the stores that are left

## Main statements

- `Zone.Codes.matches` — renamed code is of the same make
- `eval_renamed` — evaluation comes to the same
-/

namespace PocketLisp

variable {x y : String}

theorem Expr.Avoids.operands {e : Expr} (h : e.Avoids y) : ∀ d ∈ e.operands, d.Avoids y := by
  cases e with
  | special keyword args => exact Expr.avoids_special.1 h
  | call operator args => exact List.forall_mem_cons.2 (Expr.avoids_call.1 h)
  | _ => exact nofun

theorem Expr.Matches.rename {R : Expr → Expr → Prop} {e : Expr}
    (h : ∀ d ∈ e.operands, R d (d.rename x y)) : e.Matches R (e.rename x y) := by
  have hall {es : List Expr} (hes : ∀ d ∈ es, R d (d.rename x y)) :
      List.Forall₂ R es (Expr.renameAll x y es) := by
    rw [Expr.renameAll_eq_map, List.forall₂_map_right_iff]
    exact List.forall₂_same.2 hes
  cases e with
  | literal v => exact .literal v
  | var name => exact .var _ _
  | lambda formals body => exact .lambda _ _ _ _
  | special keyword args => exact .special keyword (hall h)
  | call operator args =>
    obtain ⟨hoperator, hargs⟩ := List.forall_mem_cons.1 h
    exact .call hoperator (hall hargs)

/-- Renamed code is of the same make, and its parts are renamed. -/
theorem Zone.Codes.matches {zone : Zone} {e e' : Expr} (h : zone.Codes x y e e') :
    e.Matches (zone.Codes x y) e' := by
  cases zone with
  | outside =>
    have hsame (es : List Expr) : List.Forall₂ (Zone.outside.Codes x y) es es :=
      List.forall₂_same.2 fun _ _ => .inl rfl
    rcases h with rfl | h
    · exact .of_operands fun _ _ => .inl rfl
    · cases h with
      | here hx hy => exact .lambda _ _ _ _
      | body h => exact .lambda _ _ _ _
      | part h => exact .special _ (List.rel_append (hsame _) (.cons (.inr h) (hsame _)))
      | operator h => exact .call (.inr h) (hsame _)
      | argument h =>
        exact .call (.inl rfl) (List.rel_append (hsame _) (.cons (.inr h) (hsame _)))
  | renamed =>
    obtain ⟨hy, rfl⟩ := h
    exact .rename fun d hd => ⟨hy.operands d hd, rfl⟩
  | shadowed =>
    obtain ⟨hy, rfl⟩ := h
    exact .of_operands fun d hd => ⟨hy.operands d hd, rfl⟩

/-- An evaluation beside one in which a formal is renamed. Both have the same scopes, and code there
differs as the scope stands to the `lambda`. -/
def renamedFormal (x y : String) : Simulation Zones where
  machine w m m' := m.store.Renamed x y w m'.store ∧ m.out = m'.out
  code w i i' e e' := i = i' ∧ ∃ zone, w.zone? i = some zone ∧ zone.Codes x y e e'
  value _ _ := True
  closure := Closure.Renamed x y
  code_mono hle := by
    rintro ⟨rfl, zone, hzone, hcode⟩
    exact ⟨rfl, zone, hle _ _ hzone, hcode⟩
  value_mono _ _ := trivial
  closure_mono hle h := h.mono hle
  code_matches := by
    rintro w i _ e e' ⟨rfl, zone, hzone, hcode⟩
    exact hcode.matches.imp fun _ _ h => ⟨rfl, zone, hzone, h⟩
  value_nil _ := trivial
  value_literal _ := trivial
  lookup := by
    rintro w m m' i _ name name' v v' s s' ⟨hm, hout⟩ ⟨rfl, zone, hzone, hcode⟩ h h'
    obtain ⟨hv, hs⟩ := hm.lookup hzone hcode.names
    rw [h, h'] at hv hs
    exact ⟨hv, .now ⟨⟨hs, hout⟩, trivial⟩⟩
  assign := by
    rintro w m m' i _ name name' v ⟨hm, hout⟩ ⟨rfl, zone, hzone, hcode⟩ -
    exact .now ⟨hm.assign hzone hcode.names v, hout⟩
  newClosure := by
    rintro w m m' i _ formals formals' body body' id id' s s' ⟨hm, hout⟩ ⟨rfl, zone, hzone, hcode⟩
      h h'
    obtain ⟨hid, hs⟩ := hm.newClosure hzone hcode
    rw [h, h'] at hid hs
    exact ⟨hid, .now ⟨⟨hs, hout⟩, trivial⟩⟩
  found h _ := h.1.closure _
  arity := by
    rintro w c c' ⟨-, zone, -, hcode⟩
    exact hcode.enter.1
  enter := by
    rintro w m m' c c' args frame frame' s s' ⟨hm, hout⟩ ⟨hscope, zone, hzone, hcode⟩ hlength -
      h h'
    obtain ⟨-, inner, hbody, hframes⟩ := hcode.enter
    obtain ⟨hframe, hinner, hs⟩ := hm.newFrame hzone (hframes args hlength)
    rw [hscope] at h'
    rw [h, h'] at hframe
    rw [h] at hinner
    rw [h, h'] at hs
    exact ⟨w.push inner, Zones.le_push w inner, ⟨hs, hout⟩, hframe, inner, hinner, hbody⟩
  primitive := by
    rintro w m m' p args r r' out out' ⟨hm, hout⟩ - h h'
    rw [hout, h'] at h
    cases h
    exact ⟨rfl, .now ⟨⟨hm, rfl⟩, fun _ _ => trivial⟩⟩

/-- Two stores that had the same first `n` frames. These still bind the same names to the same
values; the other frames, and the code of the closures, differ in the name of the formal at most. -/
structure Store.RenamedSince (x y : String) (n : Nat) (s s' : Store) : Prop where
  old : ∀ i < n, s'.bindings i = s.bindings i
  renamed : ∃ w : Zones, (∀ i < n, w.zone? i = some .outside) ∧ s.Renamed x y w s'

theorem Store.Renamed.since {w w' : Zones} {n : Nat} {s s' : Store} (hle : w ≤ w')
    (hw : ∀ i < n, w.zone? i = some .outside) (h : s.Renamed x y w' s') :
    s.RenamedSince x y n s' := by
  have hold : ∀ i < n, w'.zone? i = some .outside := fun i hi => hle i _ (hw i hi)
  exact ⟨fun i hi => (h.frame i _ (hold i hi)).eq_of_outside, w', hold, h⟩

/-- Where a formal of a `lambda` gets a name that does not occur there, evaluation comes to the
same, for any amount of fuel: the same value or the same error, and the same output. The frames that
were there before bind the same names to the same values. -/
theorem eval_renamed {s : Store} {scope : FrameId} {e e' : Expr} (hs : s.Nested)
    (hscope : scope < s.frames.size) (h : e.RenamedIn x y e') (fuel : Nat) (out : Sink) :
    (eval fuel scope e ⟨s, out⟩).Related
      (fun m m' => m.out = m'.out ∧ m.store.RenamedSince x y s.frames.size m'.store)
      (eval fuel scope e' ⟨s, out⟩) := by
  obtain ⟨w, hw, hstart⟩ := hs.renamed (x := x) (y := y)
  have hagree := (renamedFormal x y).eval_agree fuel scope scope w e e' ⟨s, out⟩ ⟨s, out⟩
    ⟨hstart, rfl⟩ ⟨rfl, .outside, hw scope hscope, .inr h⟩
  exact hagree.related.imp fun m m' ⟨w', hle, hm, hout⟩ => ⟨hout, hm.since hle hw⟩

/-- `((lambda (x) (lambda (w) x)) 5)` makes a closure that reads `x` in a frame that binds `x`, and
with `z` for `x` one that reads `z` in a frame that binds `z`. -/
theorem eval_renamed_captured :
    ∃ m m', eval 2 0 (.call (.lambda ["x"] (.lambda ["w"] (.var "x"))) [.literal (.number 5)])
        ⟨Session.new.store, .unlimited⟩ = .value (.closure 1) m ∧
      eval 2 0 (.call (.lambda ["z"] (.lambda ["w"] (.var "z"))) [.literal (.number 5)])
        ⟨Session.new.store, .unlimited⟩ = .value (.closure 1) m' ∧
      m.store.closures[1]? = some ⟨["w"], .var "x", 1⟩ ∧
      m'.store.closures[1]? = some ⟨["w"], .var "z", 1⟩ ∧
      m.store.bindings 1 = [("x", .number 5)] ∧ m'.store.bindings 1 = [("z", .number 5)] ∧
      m.store.RenamedSince "x" "z" 1 m'.store := by
  have havoids : (Expr.lambda ["x"] (.lambda ["w"] (.var "x"))).Avoids "z" := by
    simp [Expr.Avoids, Expr.All, Expr.Lacks]
  have hrenamed := eval_renamed Session.nestedIn_new.1 Session.nestedIn_new.2
    (.operator (.here (List.mem_singleton.2 rfl) havoids)) 2 .unlimited
    (e := .call (.lambda ["x"] (.lambda ["w"] (.var "x"))) [.literal (.number 5)])
  exact ⟨_, _, rfl, rfl, rfl, rfl, rfl, rfl, hrenamed.2.2⟩

end PocketLisp
