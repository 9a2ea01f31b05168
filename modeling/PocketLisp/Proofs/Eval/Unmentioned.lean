import Mathlib
import PocketLisp.Proofs.Eval.Related
import PocketLisp.Proofs.Eval.Renaming
import PocketLisp.Proofs.Store.Unmentioned

/-!
# A name that no code mentions does not matter

What a name means has no bearing on code in which it does not occur, as long as it does not occur
either in the code of a closure that such code can come by.

## Main definitions

- `unmentioned` — the same code on two stores that differ in one name, side by side

## Main statements

- `Expr.Ignores.operands` — the parts of code that ignores a name ignore it
- `eval_unmentioned` — evaluation comes to the same, and leaves the name as it was
-/

namespace PocketLisp

variable {n : String}

theorem Expr.Ignores.operands {known : Set ClosureId} {e : Expr} (h : e.Ignores n known) :
    ∀ d ∈ e.operands, d.Ignores n known := by
  intro d hd
  refine ⟨h.1.operands d hd, fun id hid => h.2 id ?_⟩
  cases e with
  | special keyword args => exact Expr.hasClosure_special hd hid
  | call operator args => exact Expr.hasClosure_call hd hid
  | _ => cases hd

/-- The same evaluation on stores that differ in what they bind to the name. The closures that
either can come by are known beforehand, or were made by both since. -/
def unmentioned (n : String) (s₀ s₀' : Store) : Simulation (Set ClosureId) where
  machine known m m' := m.out = m'.out ∧ m.store.DiffersIn n m'.store ∧
    m.store.Ignores n known s₀ ∧ m'.store.Ignores n known s₀'
  code known i i' e e' := i = i' ∧ e = e' ∧ e.Ignores n known
  value known v := v.ClosuresIn known
  closure known c c' := c = c' ∧ (Expr.lambda c.formals c.body).Ignores n known
  code_mono := fun hle ⟨hi, he, hcode⟩ => ⟨hi, he, hcode.mono hle⟩
  value_mono hle h := h.mono hle
  closure_mono := fun hle ⟨hc, hcode⟩ => ⟨hc, hcode.mono hle⟩
  code_matches := by
    rintro known i _ e _ ⟨rfl, rfl, hcode⟩
    exact .of_operands fun d hd => ⟨rfl, rfl, hcode.operands d hd⟩
  value_nil _ _ hid := hid.elim
  value_literal := fun ⟨_, _, hcode⟩ => hcode.2
  lookup := by
    rintro known m m' i _ name _ v v' s s' ⟨hout, hm, hs, hs'⟩ ⟨rfl, heq, hcode⟩ h h'
    cases heq
    obtain ⟨hv, hstores⟩ := hm.lookup hcode.1 i
    obtain ⟨hvalue, hleft⟩ := hs.lookup hcode.1 i
    have hright := (hs'.lookup hcode.1 i).2
    rw [h] at hvalue hleft
    rw [h'] at hright
    rw [h, h'] at hv hstores
    exact ⟨hv, .now ⟨⟨hout, hstores, hleft, hright⟩, hvalue⟩⟩
  assign := by
    rintro known m m' i _ name _ v ⟨hout, hm, hs, hs'⟩ ⟨rfl, heq, hcode⟩ hv
    cases heq
    have hname := hcode.1
    exact .now ⟨hout, hm.assign hname i v, hs.assign hname hv i, hs'.assign hname hv i⟩
  newClosure := by
    rintro known m m' i _ formals _ body _ id id' s s' ⟨hout, hm, hs, hs'⟩ ⟨rfl, heq, hcode⟩ h h'
    cases heq
    obtain ⟨hid, hstores⟩ := hm.newClosure formals body i
    have hleft := hs.newClosure hcode i
    have hright := hs'.newClosure hcode i
    rw [h] at hleft
    rw [h'] at hright
    rw [h, h'] at hid hstores
    dsimp only at hid
    subst hid
    refine ⟨rfl, insert id known, Set.subset_insert id known, ⟨hout, hstores, hleft, hright⟩, ?_⟩
    rintro _ rfl
    exact Set.mem_insert id known
  found := by
    rintro known m m' id ⟨-, hm, hs, -⟩ hvalue
    rw [hm.closures]
    cases hc : m.store.closures[id]? with
    | none => exact .none
    | some c => exact .some ⟨rfl, hs.code id (hvalue id rfl) c hc⟩
  arity := fun ⟨hc, _⟩ => congrArg (fun c => c.formals.length) hc
  enter := by
    rintro known m m' c _ args frame frame' s s' ⟨hout, hm, hs, hs'⟩ ⟨rfl, hcode⟩ hlength hargs h h'
    obtain ⟨hformals, hbody⟩ := Expr.ignores_lambda.1 hcode
    have hnames : n ∉ (Bindings.ofPairs (c.formals.zip args)).names :=
      mt (Bindings.mem_names_ofPairs_zip hlength).1 hformals
    have hvalues : ∀ name v, (name, v) ∈ Bindings.ofPairs (c.formals.zip args) →
        v.ClosuresIn known :=
      fun name v hmem => hargs v (List.of_mem_zip (Bindings.mem_of_mem_ofPairs hmem)).2
    obtain ⟨hframe, hstores⟩ := hm.newFrame (.ofPairs (c.formals.zip args)) (some c.scope)
    have hleft := hs.newFrame hnames hvalues (some c.scope)
    have hright := hs'.newFrame hnames hvalues (some c.scope)
    rw [h] at hleft
    rw [h'] at hright
    rw [h, h'] at hframe hstores
    exact .now ⟨⟨hout, hstores, hleft, hright⟩, hframe, rfl, hbody⟩
  primitive := by
    rintro known m m' p args r r' out out' ⟨hout, hm, hs, hs'⟩ hargs h h'
    rw [hout, h'] at h
    cases h
    refine ⟨rfl, .now ⟨⟨rfl, hm, hs, hs'⟩, ?_⟩⟩
    rintro v rfl id hid
    have hanswer := p.apply_proper args m'.out
    rw [h'] at hanswer
    obtain ⟨a, ha, hin⟩ := hanswer.hasClosure hid
    exact hargs a ha id hin

/-- A name that occurs neither in an expression nor in the code of a closure that is held in one of
two stores, or in a constant, does not matter: on stores that differ in that name at most,
evaluation comes to the same, for any amount of fuel. It gives the same value or the same error and
writes the same. The stores that are left differ in that name at most, and every frame has it bound
as it was, or as unbound as it was. -/
theorem eval_unmentioned {s s' : Store} {e : Expr} (h : s.DiffersIn n s') (he : e.Avoids n)
    (hheld : ∀ id c, s.Held e id ∨ s'.Held e id → s.closures[id]? = some c →
      (Expr.lambda c.formals c.body).Avoids n)
    (fuel : Nat) (scope : FrameId) (out : Sink) :
    (eval fuel scope e ⟨s, out⟩).Related
      (fun m m' => m.out = m'.out ∧ m.store.DiffersIn n m'.store ∧
        (∀ i, (m.store.bindings i).get? n = (s.bindings i).get? n) ∧
        ∀ i, (m'.store.bindings i).get? n = (s'.bindings i).get? n)
      (eval fuel scope e ⟨s', out⟩) := by
  obtain ⟨hs, hs'⟩ := h.ignores hheld
  have hcode : e.Ignores n {id | s.Held e id ∨ s'.Held e id} := ⟨he, fun id hid => .inl (.code hid)⟩
  have hagree := (unmentioned n s s').eval_agree fuel scope scope _ e e ⟨s, out⟩ ⟨s', out⟩
    ⟨rfl, h, hs, hs'⟩ ⟨rfl, rfl, hcode⟩
  refine hagree.related.imp ?_
  rintro m m' ⟨known, -, hout, hm, hleft, hright⟩
  exact ⟨hout, hm, hleft.keeps, hright.keeps⟩

/-- A store with a closure `f` that calls `cdr`, in which nothing binds `car`. -/
def storeWithTail : Store where
  frames := #[⟨[("cdr", .primitive .cdr), ("f", .closure 0)], none⟩]
  closures := #[⟨["x"], .call (.var "cdr") [.var "x"], 0⟩]

/-- `(f '(1 2))` comes to the same whether `car` is bound or not, where `f` calls `cdr` alone. -/
theorem eval_unmentioned_car :
    ∃ m m', eval 4 0 (.call (.var "f") [.literal (.ofList [.number 1, .number 2])])
        ⟨storeWithTail, .unlimited⟩ = .value (.ofList [.number 2]) m ∧
      eval 4 0 (.call (.var "f") [.literal (.ofList [.number 1, .number 2])])
        ⟨storeWithTail.define 0 "car" (.number 7), .unlimited⟩ =
          .value (.ofList [.number 2]) m' ∧
      m.store.DiffersIn "car" m'.store ∧ (m.store.bindings 0).get? "car" = none ∧
      (m'.store.bindings 0).get? "car" = some (.number 7) := by
  have havoids :
      (Expr.call (.var "f") [.literal (.ofList [.number 1, .number 2])]).Avoids "car" := by
    simp [Expr.Avoids, Expr.All, Expr.AllArgs, Expr.Lacks]
  have hheld : ∀ (id : ClosureId) (c : Closure), storeWithTail.closures[id]? = some c →
      (Expr.lambda c.formals c.body).Avoids "car" := by
    intro id c hc
    have hmem := Array.mem_of_getElem? hc
    simp only [storeWithTail, List.mem_toArray, List.mem_singleton] at hmem
    subst hmem
    simp [Expr.Avoids, Expr.All, Expr.AllArgs, Expr.Lacks]
  have hrun : eval 4 0 (.call (.var "f") [.literal (.ofList [.number 1, .number 2])])
      ⟨storeWithTail, .unlimited⟩ = .value (.ofList [.number 2])
        ⟨(storeWithTail.newFrame [("x", .ofList [.number 1, .number 2])] (some 0)).2,
          .unlimited⟩ := by
    cbv
  have hsame := eval_unmentioned (storeWithTail.differsIn_define 0 "car" (.number 7)) havoids
    (fun id c _ => hheld id c) 4 0 .unlimited
  rw [hrun] at hsame
  obtain ⟨m', hm', -, hstores, hleft, hright⟩ := hsame.exists_value
  exact ⟨_, m', hrun, hm', hstores, hleft 0, hright 0⟩

end PocketLisp
