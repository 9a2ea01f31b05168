import PocketLisp.Proofs.Eval.Related
import PocketLisp.Proofs.Store.NilEquivalent
import PocketLisp.Session

/-!
# Reading an unbound name cannot be noticed

Reading a name that nothing binds changes the store, but no program can find out: evaluation on the
changed store gives the same value or the same error and writes the same.

## Main definitions

- `Machine.NilEquivalent` — the same output, and stores that differ in unbound names at most

## Main statements

- `eval_nilEquivalent` — evaluation does not tell such stores apart
-/

namespace PocketLisp

/-- Two machines with the same output, whose stores differ in unbound names at most. -/
def Machine.NilEquivalent (m m' : Machine) : Prop :=
  m.store.NilEquivalent m'.store ∧ m.out = m'.out

/-- No operation tells such machines apart. -/
def unnoticed : MachineRelation where
  related := Machine.NilEquivalent
  closures h := h.1.closures
  lookup h i name := by
    obtain ⟨hv, hs⟩ := h.1.lookup i name
    exact ⟨hv, hs, h.2⟩
  assign h i name v := ⟨h.1.assign i name v, h.2⟩
  newClosure h formals body i := ⟨(h.1.newClosure formals body i).2, h.2⟩
  newFrame h b parent := by
    obtain ⟨hframe, hs⟩ := h.1.newFrame b parent
    exact ⟨hframe, hs, h.2⟩
  primitive {m m'} h p args := by
    rw [h.2]
    exact ⟨rfl, h.1, rfl⟩

/-- Evaluation of any expression in any scope, for any amount of fuel, gives the same value or error
and writes the same on stores that differ in unbound names at most, and leaves such stores again.
In particular it makes no difference how many names were read before, and in which scopes. -/
theorem eval_nilEquivalent {s s' : Store} (h : s.NilEquivalent s') (fuel : Nat) (scope : FrameId)
    (e : Expr) (out : Sink) :
    (eval fuel scope e ⟨s, out⟩).Related Machine.NilEquivalent (eval fuel scope e ⟨s', out⟩) ∧
      ∀ reads, (eval fuel scope e ⟨s, out⟩).Related Machine.NilEquivalent
        (eval fuel scope e ⟨s'.readAll reads, out⟩) := by
  have hsame (s'' : Store) (h : s.NilEquivalent s'') :
      (eval fuel scope e ⟨s, out⟩).Related Machine.NilEquivalent
        (eval fuel scope e ⟨s'', out⟩) := by
    have hrelated : unnoticed.related ⟨s, out⟩ ⟨s'', out⟩ := ⟨h, rfl⟩
    exact unnoticed.eval_related hrelated fuel scope e
  constructor
  · exact hsame s' h
  · intro reads
    exact hsame _ (h.trans (Store.nilEquivalent_readAll s' reads))

theorem lookup_ghost :
    Session.new.store.lookup 0 "ghost" = (.nil, Session.new.store.define 0 "ghost" .nil) := by
  have hroot : Session.new.store.parent? 0 = none := rfl
  have hget : Session.new.store.get? 0 "ghost" = none := by
    rw [Store.get?, Store.find?_of_root hroot]
    rfl
  unfold Store.lookup
  rw [hget, Store.root_of_root hroot]

/-- Reading `ghost` binds it, and `(set ghost 5)` comes to the same after that as before. -/
theorem eval_nilEquivalent_ghost :
    (Session.new.store.bindings 0).get? "ghost" = none ∧
      ((Session.new.store.lookup 0 "ghost").2.bindings 0).get? "ghost" = some .nil ∧
      ∃ m m', eval 2 0 (.special .assign [.var "ghost", .literal (.number 5)])
          ⟨Session.new.store, .unlimited⟩ = .value (.number 5) m ∧
        eval 2 0 (.special .assign [.var "ghost", .literal (.number 5)])
          ⟨(Session.new.store.lookup 0 "ghost").2, .unlimited⟩ = .value (.number 5) m' ∧
        m.NilEquivalent m' := by
  refine ⟨rfl, by rw [lookup_ghost]; rfl, ?_⟩
  have hsame := (eval_nilEquivalent (Store.nilEquivalent_lookup Session.new.store 0 "ghost") 2 0
    (.special .assign [.var "ghost", .literal (.number 5)]) .unlimited).1
  obtain ⟨m, hm⟩ : ∃ m, eval 2 0 (.special .assign [.var "ghost", .literal (.number 5)])
      ⟨Session.new.store, .unlimited⟩ = .value (.number 5) m := ⟨_, rfl⟩
  rw [hm] at hsame
  obtain ⟨m', hm', hequivalent⟩ := hsame.exists_value
  exact ⟨m, m', hm, hm', hequivalent⟩

end PocketLisp
