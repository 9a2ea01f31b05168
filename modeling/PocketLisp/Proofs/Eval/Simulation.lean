import Mathlib.Data.List.Forall2
import Mathlib.Order.Basic
import PocketLisp.Proofs.Code.Parts
import PocketLisp.Eval

/-!
# Two evaluations side by side

Two evaluations of code of the same make, on machines that are related in some way, take the same
course: they give the same value or the same error, and leave related machines. It is enough that
each operation which touches the machine has this property.

## Main definitions

- `evalStep` — one level of evaluation, given an evaluator for the parts
- `Expr.Matches` — two expressions of the same make
- `Simulation` — related machines, code, values and closures that every operation keeps related
- `Simulation.Agree` — two outcomes of the same kind

## Main statements

- `Simulation.evalStep_agree` — one level of evaluation keeps what its parts keep
- `Simulation.eval_agree` — evaluations agree, for any amount of fuel

## Design notes

What is related may depend on what was made so far, such as which frames correspond. A world says
so, and worlds only grow. Closures have the same places in both stores, so both evaluations have
the same values.
-/

namespace PocketLisp

/-- One level of evaluation in a scope: `evalIn` evaluates the parts. -/
def evalStep (evalIn : FrameId → Expr → Eval Value) (rounds : Nat) (scope : FrameId) :
    Expr → Eval Value
  | .literal value => pure value
  | .var name => Eval.lookup scope name
  | .lambda formals body => Eval.newClosure formals body scope
  | .special keyword args => evalSpecial (evalIn scope) rounds scope keyword args
  | .call operator args => do
    let f ← evalIn scope operator
    evalCall evalIn scope f args

theorem eval_succ (fuel : Nat) (scope : FrameId) (e : Expr) :
    eval (fuel + 1) scope e = evalStep (eval fuel) fuel scope e := by
  cases e <;> rfl

/-- A special form whose arguments do not suit its keyword is refused. -/
theorem evalSpecial_of_not_suits {ev : Expr → Eval Value} {rounds : Nat} {scope : FrameId}
    {keyword : Keyword} {args : List Expr} (h : ¬ keyword.Suits args) :
    evalSpecial ev rounds scope keyword args =
      .fail (.internal s!"malformed {keyword.text} with {args.length} argument(s)") := by
  unfold evalSpecial
  split
  · exact absurd rfl h
  · exact absurd rfl h
  · exact absurd ⟨_, _, rfl⟩ h
  · exact absurd (List.cons_ne_nil _ _) h
  · rfl

theorem Closure.length_of_checkArity {c : Closure} {count : Nat} {a : Unit}
    (h : c.checkArity count = .ok a) : c.formals.length = count := by
  unfold checkArity at h
  split at h
  · next hlength => exact hlength
  · cases h

/-- Two expressions of the same make, with parts that are related by `R`. Their names may
differ. -/
inductive Expr.Matches (R : Expr → Expr → Prop) : Expr → Expr → Prop
  | literal (value : Value) : Matches R (.literal value) (.literal value)
  | var (name name' : String) : Matches R (.var name) (.var name')
  | lambda (formals formals' : List String) (body body' : Expr) :
      Matches R (.lambda formals body) (.lambda formals' body')
  | special (keyword : Keyword) {args args' : List Expr} :
      List.Forall₂ R args args' → Matches R (.special keyword args) (.special keyword args')
  | call {operator operator' : Expr} {args args' : List Expr} :
      R operator operator' → List.Forall₂ R args args' →
        Matches R (.call operator args) (.call operator' args')

/-- The expressions that are evaluated in the scope of an expression, as parts of it. -/
def Expr.operands : Expr → List Expr
  | special _ args => args
  | call operator args => operator :: args
  | _ => []

theorem Expr.Matches.of_operands {R : Expr → Expr → Prop} {e : Expr}
    (h : ∀ d ∈ e.operands, R d d) : e.Matches R e := by
  cases e with
  | literal value => exact .literal value
  | var name => exact .var name name
  | lambda formals body => exact .lambda formals formals body body
  | special keyword args => exact .special keyword (List.forall₂_same.2 h)
  | call operator args =>
    obtain ⟨hoperator, hargs⟩ := List.forall_mem_cons.1 h
    exact .call hoperator (List.forall₂_same.2 hargs)

theorem Expr.Matches.imp {R R' : Expr → Expr → Prop} {e e' : Expr} (hR : ∀ e e', R e e' → R' e e')
    (h : e.Matches R e') : e.Matches R' e' := by
  cases h with
  | literal value => exact .literal value
  | var name name' => exact .var name name'
  | lambda formals formals' body body' => exact .lambda formals formals' body body'
  | special keyword hargs => exact .special keyword (hargs.imp hR)
  | call hoperator hargs => exact .call (hR _ _ hoperator) (hargs.imp hR)

/-- In a world after `w`. -/
def Later {World : Type} [Preorder World] (w : World) (p : World → Prop) : Prop :=
  ∃ w', w ≤ w' ∧ p w'

section

variable {World : Type} [Preorder World] {w w' : World} {p q : World → Prop}

theorem Later.now (h : p w) : Later w p := ⟨w, le_rfl, h⟩

theorem Later.mono (h : w ≤ w') : Later w' p → Later w p
  | ⟨w'', hle, hp⟩ => ⟨w'', h.trans hle, hp⟩

theorem Later.imp (h : Later w p) (hpq : ∀ w', w ≤ w' → p w' → q w') : Later w q := by
  obtain ⟨w', hle, hp⟩ := h
  exact ⟨w', hle, hpq w' hle hp⟩

end

/-- A relation between the parts of two evaluations that every operation keeps. -/
structure Simulation (World : Type) [Preorder World] where
  machine : World → Machine → Machine → Prop
  /-- The code that may be evaluated in the one scope and in the other. -/
  code : World → FrameId → FrameId → Expr → Expr → Prop
  /-- The values that both evaluations may come to. -/
  value : World → Value → Prop
  closure : World → Closure → Closure → Prop
  code_mono : ∀ {w w' i i' e e'}, w ≤ w' → code w i i' e e' → code w' i i' e e'
  value_mono : ∀ {w w' v}, w ≤ w' → value w v → value w' v
  closure_mono : ∀ {w w' c c'}, w ≤ w' → closure w c c' → closure w' c c'
  code_matches : ∀ {w i i' e e'}, code w i i' e e' → e.Matches (code w i i') e'
  value_nil : ∀ w, value w .nil
  value_literal : ∀ {w i i' v}, code w i i' (.literal v) (.literal v) → value w v
  lookup : ∀ {w m m' i i' x x' v v' s s'}, machine w m m' → code w i i' (.var x) (.var x') →
    m.store.lookup i x = (v, s) → m'.store.lookup i' x' = (v', s') →
    v = v' ∧ Later w fun w' =>
      machine w' { m with store := s } { m' with store := s' } ∧ value w' v
  assign : ∀ {w m m' i i' x x' v}, machine w m m' → code w i i' (.var x) (.var x') →
    value w v → Later w fun w' =>
      machine w' { m with store := m.store.assign i x v }
        { m' with store := m'.store.assign i' x' v }
  newClosure : ∀ {w m m' i i' formals formals' body body' id id' s s'}, machine w m m' →
    code w i i' (.lambda formals body) (.lambda formals' body') →
    m.store.newClosure formals body i = (id, s) →
    m'.store.newClosure formals' body' i' = (id', s') →
    id = id' ∧ Later w fun w' =>
      machine w' { m with store := s } { m' with store := s' } ∧ value w' (.closure id)
  found : ∀ {w m m'} {id : ClosureId}, machine w m m' → value w (.closure id) →
    Option.Rel (closure w) m.store.closures[id]? m'.store.closures[id]?
  arity : ∀ {w c c'}, closure w c c' → c.formals.length = c'.formals.length
  enter : ∀ {w m m' c c' args frame frame' s s'}, machine w m m' → closure w c c' →
    c.formals.length = args.length → (∀ v ∈ args, value w v) →
    m.store.newFrame (.ofPairs (c.formals.zip args)) (some c.scope) = (frame, s) →
    m'.store.newFrame (.ofPairs (c'.formals.zip args)) (some c'.scope) = (frame', s') →
    Later w fun w' =>
      machine w' { m with store := s } { m' with store := s' } ∧
        code w' frame frame' c.body c'.body
  primitive : ∀ {w m m' p args r r' out out'}, machine w m m' → (∀ v ∈ args, value w v) →
    Primitive.apply p args m.out = (r, out) → Primitive.apply p args m'.out = (r', out') →
    r = r' ∧ Later w fun w' => machine w' { m with out } { m' with out := out' } ∧
      ∀ v, r = .ok v → value w' v

namespace Simulation

variable {World : Type} [Preorder World] (S : Simulation World) {α β γ δ : Type}

/-- Two computations end in the same way: with results that are `good`, with the same error, or
both not within their fuel. The machines that they leave are related. -/
def Agree (w : World) (good : World → α → β → Prop) : Outcome α → Outcome β → Prop
  | .value a m, .value b m' => Later w fun w' => S.machine w' m m' ∧ good w' a b
  | .error e m, .error e' m' => e = e' ∧ Later w fun w' => S.machine w' m m'
  | .outOfFuel, .outOfFuel => True
  | _, _ => False

/-- Both have the same value. -/
def Same (w : World) (v v' : Value) : Prop := v = v' ∧ S.value w v

/-- Both have the same list of values. -/
def SameAll (w : World) (vs vs' : List Value) : Prop := vs = vs' ∧ ∀ v ∈ vs, S.value w v

variable {S} {w w' : World} {m m' : Machine} {good : World → α → β → Prop}
  {good' : World → γ → δ → Prop}

theorem Agree.mono (h : w ≤ w') {o : Outcome α} {o' : Outcome β} (ho : S.Agree w' good o o') :
    S.Agree w good o o' := by
  cases o <;> cases o' <;> first | exact ho.elim | skip
  · exact Later.mono h ho
  · exact ⟨ho.1, ho.2.mono h⟩
  · trivial

theorem agree_pure {a : α} {b : β} (h : S.machine w m m') (hab : good w a b) :
    S.Agree w good ((pure a : Eval α) m) ((pure b : Eval β) m') :=
  .now ⟨h, hab⟩

theorem agree_fail {e : Error} (h : S.machine w m m') :
    S.Agree w good (Eval.fail e m) (Eval.fail e m') :=
  ⟨rfl, .now h⟩

theorem agree_bind {x : Eval α} {y : Eval β} {f : α → Eval γ} {g : β → Eval δ}
    (h : S.Agree w good (x m) (y m'))
    (hfg : ∀ w' a b m₁ m₁', w ≤ w' → S.machine w' m₁ m₁' → good w' a b →
      S.Agree w' good' (f a m₁) (g b m₁')) :
    S.Agree w good' ((x >>= f) m) ((y >>= g) m') := by
  rw [Eval.bind_apply, Eval.bind_apply]
  cases hx : x m <;> cases hy : y m' <;> rw [hx, hy] at h <;> first | exact h.elim | skip
  · obtain ⟨w', hle, hm, hab⟩ := h
    exact (hfg w' _ _ _ _ hle hm hab).mono hle
  · exact h
  · trivial

/-- A result or an error that both found without the machine. -/
theorem agree_ofExcept {r : Except Error α} (h : S.machine w m m') :
    S.Agree w (fun _ a _ => r = .ok a) (Eval.ofExcept r m) (Eval.ofExcept r m') := by
  cases r with
  | ok a => exact agree_pure h rfl
  | error e => exact agree_fail h

/-! ### The parts of evaluation -/

/-- Two evaluators that agree on the code of two scopes. -/
def Evaluates (S : Simulation World) (ev ev' : Expr → Eval Value) (i i' : FrameId) : Prop :=
  ∀ w e e' m m', S.machine w m m' → S.code w i i' e e' → S.Agree w S.Same (ev e m) (ev' e' m')

variable {ev ev' : Expr → Eval Value} {evalIn evalIn' : FrameId → Expr → Eval Value}
  {i i' : FrameId} {e e' : Expr} {es es' args args' : List Expr} {v : Value}

theorem code_mono_all (hle : w ≤ w') (h : List.Forall₂ (S.code w i i') es es') :
    List.Forall₂ (S.code w' i i') es es' :=
  h.imp fun _ _ => S.code_mono hle

theorem evalAll_agree (hev : S.Evaluates ev ev' i i') (h : S.machine w m m')
    (hes : List.Forall₂ (S.code w i i') es es') :
    S.Agree w S.SameAll (evalAll ev es m) (evalAll ev' es' m') := by
  induction es generalizing es' w m m' with
  | nil =>
    cases hes
    exact agree_pure h ⟨rfl, List.forall_mem_nil _⟩
  | cons e es ih =>
    obtain ⟨e', es', he, hrest, rfl⟩ := List.forall₂_cons_left_iff.1 hes
    refine agree_bind (hev w e e' m m' h he) fun w₁ v v' m₁ m₁' hle h₁ ⟨heq, hv⟩ => ?_
    subst heq
    refine agree_bind (ih h₁ (code_mono_all hle hrest)) ?_
    intro w₂ vs vs' m₂ m₂' hle' h₂ ⟨heq, hvs⟩
    subst heq
    exact agree_pure h₂ ⟨rfl, List.forall_mem_cons.2 ⟨S.value_mono hle' hv, hvs⟩⟩

theorem evalLast_agree (hev : S.Evaluates ev ev' i i') (h : S.machine w m m')
    (he : S.code w i i' e e') (hes : List.Forall₂ (S.code w i i') es es') :
    S.Agree w S.Same (evalLast ev e es m) (evalLast ev' e' es' m') := by
  induction es generalizing e e' es' w m m' with
  | nil =>
    cases hes
    exact hev w e e' m m' h he
  | cons d es ih =>
    obtain ⟨d', es', hd, hrest, rfl⟩ := List.forall₂_cons_left_iff.1 hes
    refine agree_bind (hev w e e' m m' h he) fun w₁ v v' m₁ m₁' hle h₁ _ => ?_
    exact ih h₁ (S.code_mono hle hd) (code_mono_all hle hrest)

theorem evalWhile_agree {condition condition' body body' : Expr} (hev : S.Evaluates ev ev' i i')
    (rounds : Nat) (h : S.machine w m m') (hcondition : S.code w i i' condition condition')
    (hbody : S.code w i i' body body') :
    S.Agree w S.Same (evalWhile (ev condition) (ev body) rounds m)
      (evalWhile (ev' condition') (ev' body') rounds m') := by
  induction rounds generalizing w m m' with
  | zero => trivial
  | succ rounds ih =>
    refine agree_bind (hev w _ _ m m' h hcondition) fun w₁ v v' m₁ m₁' hle h₁ ⟨heq, _⟩ => ?_
    subst heq
    split
    · have hbody₁ := S.code_mono hle hbody
      refine agree_bind (hev w₁ _ _ m₁ m₁' h₁ hbody₁) fun w₂ _ _ m₂ m₂' hle' h₂ _ => ?_
      exact ih h₂ (S.code_mono (hle.trans hle') hcondition) (S.code_mono hle' hbody₁)
    · exact agree_pure h₁ ⟨rfl, S.value_nil w₁⟩

/-- Arguments of the same make suit the same keywords. -/
theorem suits_of_code {keyword : Keyword} (hargs : List.Forall₂ (S.code w i i') args args')
    (h : keyword.Suits args') : keyword.Suits args := by
  cases keyword with
  | branch | loop => exact hargs.length_eq.trans h
  | assign =>
    obtain ⟨name', d', rfl⟩ := h
    obtain ⟨c, cs, hc, hcs, rfl⟩ := List.forall₂_cons_right_iff.1 hargs
    obtain ⟨d, ds, -, hds, rfl⟩ := List.forall₂_cons_right_iff.1 hcs
    cases hds
    cases S.code_matches hc with
    | var name => exact ⟨name, d, rfl⟩
  | sequence =>
    rintro rfl
    cases hargs
    exact h rfl

theorem evalSpecial_agree {keyword : Keyword} (hev : S.Evaluates ev ev' i i') (rounds : Nat)
    (h : S.machine w m m') (hargs : List.Forall₂ (S.code w i i') args args') :
    S.Agree w S.Same (evalSpecial ev rounds i keyword args m)
      (evalSpecial ev' rounds i' keyword args' m') := by
  by_cases hsuits : keyword.Suits args
  · cases keyword with
    | branch =>
      obtain ⟨a, b, c, rfl⟩ := List.length_eq_three.1 hsuits
      rcases hargs with _ | ⟨ha, _ | ⟨hb, _ | ⟨hc, _ | _⟩⟩⟩
      refine agree_bind (hev w _ _ m m' h ha) fun w₁ v v' m₁ m₁' hle h₁ ⟨heq, _⟩ => ?_
      subst heq
      split
      · exact hev w₁ _ _ m₁ m₁' h₁ (S.code_mono hle hc)
      · exact hev w₁ _ _ m₁ m₁' h₁ (S.code_mono hle hb)
    | loop =>
      obtain ⟨a, b, rfl⟩ := List.length_eq_two.1 hsuits
      rcases hargs with _ | ⟨ha, _ | ⟨hb, _ | _⟩⟩
      exact evalWhile_agree hev rounds h ha hb
    | assign =>
      obtain ⟨name, b, rfl⟩ := hsuits
      rcases hargs with _ | ⟨ha, _ | ⟨hb, _ | _⟩⟩
      cases S.code_matches ha
      refine agree_bind (hev w _ _ m m' h hb) fun w₁ v v' m₁ m₁' hle h₁ ⟨heq, hv⟩ => ?_
      subst heq
      obtain ⟨w₂, hle', h₂⟩ := S.assign h₁ (S.code_mono hle ha) hv
      exact (agree_pure h₂ ⟨rfl, S.value_mono hle' hv⟩).mono hle'
    | sequence =>
      obtain ⟨a, as, rfl⟩ := List.exists_cons_of_ne_nil hsuits
      obtain ⟨a', as', ha, has, rfl⟩ := List.forall₂_cons_left_iff.1 hargs
      exact evalLast_agree hev h ha has
  · have hsuits' : ¬ keyword.Suits args' := fun hs => hsuits (suits_of_code hargs hs)
    rw [evalSpecial_of_not_suits hsuits, evalSpecial_of_not_suits hsuits', hargs.length_eq]
    exact agree_fail h

theorem applyClosure_agree {c c' : Closure} {values : List Value}
    (hev : ∀ i i', S.Evaluates (evalIn i) (evalIn' i') i i') (h : S.machine w m m')
    (hc : S.closure w c c') (hvalues : ∀ v ∈ values, S.value w v) :
    S.Agree w S.Same (applyClosure evalIn c values m) (applyClosure evalIn' c' values m') := by
  have harity : c.checkArity values.length = c'.checkArity values.length := by
    rw [Closure.checkArity, Closure.checkArity, S.arity hc]
  unfold applyClosure
  rw [← harity]
  refine agree_bind (agree_ofExcept h) fun w₁ _ _ m₁ m₁' hle h₁ hok => ?_
  have hlength := Closure.length_of_checkArity hok
  have hvalues₁ : ∀ v ∈ values, S.value w₁ v := fun v hv => S.value_mono hle (hvalues v hv)
  obtain ⟨w₂, hle', h₂, hbody⟩ := S.enter h₁ (S.closure_mono hle hc) hlength hvalues₁ rfl rfl
  exact (hev _ _ w₂ _ _ _ _ h₂ hbody).mono hle'

theorem primitive_agree {p : Primitive} {values : List Value} (h : S.machine w m m')
    (hvalues : ∀ v ∈ values, S.value w v) :
    S.Agree w S.Same (Eval.primitive p values m) (Eval.primitive p values m') := by
  unfold Eval.primitive
  rcases hr : p.apply values m.out with ⟨r, out⟩
  rcases hr' : p.apply values m'.out with ⟨r', out'⟩
  obtain ⟨rfl, hlater⟩ := S.primitive h hvalues hr hr'
  cases r with
  | ok v => exact hlater.imp fun w' _ ⟨hm, hv⟩ => ⟨hm, rfl, hv v rfl⟩
  | error e => exact ⟨rfl, hlater.imp fun w' _ ⟨hm, _⟩ => hm⟩

/-- After a check, the same is done with the values of the arguments. -/
theorem withArgs_agree {check : Except Error Unit} {f f' : List Value → Eval Value}
    (hev : S.Evaluates ev ev' i i') (h : S.machine w m m')
    (hargs : List.Forall₂ (S.code w i i') args args')
    (hf : ∀ w' values m m', w ≤ w' → S.machine w' m m' → (∀ v ∈ values, S.value w' v) →
      S.Agree w' S.Same (f values m) (f' values m')) :
    S.Agree w S.Same ((do Eval.ofExcept check; let values ← evalAll ev args; f values : Eval _) m)
      ((do Eval.ofExcept check; let values ← evalAll ev' args'; f' values : Eval _) m') := by
  refine agree_bind (agree_ofExcept h) fun w₁ _ _ m₁ m₁' hle h₁ _ => ?_
  refine agree_bind (evalAll_agree hev h₁ (code_mono_all hle hargs)) ?_
  intro w₂ vs vs' m₂ m₂' hle' h₂ ⟨heq, hvs⟩
  subst heq
  exact hf w₂ vs m₂ m₂' (hle.trans hle') h₂ hvs

theorem evalCall_agree {operator : Value} (hev : ∀ i i', S.Evaluates (evalIn i) (evalIn' i') i i')
    (h : S.machine w m m') (hoperator : S.value w operator)
    (hargs : List.Forall₂ (S.code w i i') args args') :
    S.Agree w S.Same (evalCall evalIn i operator args m)
      (evalCall evalIn' i' operator args' m') := by
  unfold evalCall
  rw [hargs.length_eq]
  split
  · refine withArgs_agree (hev i i') h hargs ?_
    intro w₁ values m₁ m₁' _ h₁ hvalues
    exact primitive_agree h₁ hvalues
  · next id =>
    have hfound : S.Agree w (fun w c c' => Option.Rel (S.closure w) c c')
        (Eval.closure? id m) (Eval.closure? id m') := .now ⟨h, S.found h hoperator⟩
    refine agree_bind hfound fun w₁ found found' m₁ m₁' hle h₁ hc => ?_
    cases hc with
    | none => exact agree_fail h₁
    | @some c c' hc =>
      dsimp only
      have harity : c.checkArity args'.length = c'.checkArity args'.length := by
        rw [Closure.checkArity, Closure.checkArity, S.arity hc]
      rw [harity]
      refine withArgs_agree (hev i i') h₁ (code_mono_all hle hargs) ?_
      intro w₂ values m₂ m₂' hle' h₂ hvalues
      exact applyClosure_agree hev h₂ (S.closure_mono hle' hc) hvalues
  · exact agree_fail h

/-- One level of evaluation keeps what the evaluators of the parts keep. -/
theorem evalStep_agree (hev : ∀ i i', S.Evaluates (evalIn i) (evalIn' i') i i') (rounds : Nat)
    (i i' : FrameId) :
    S.Evaluates (evalStep evalIn rounds i) (evalStep evalIn' rounds i') i i' := by
  intro w e e' m m' h he
  cases S.code_matches he with
  | literal v => exact agree_pure h ⟨rfl, S.value_literal he⟩
  | var name name' =>
    obtain ⟨heq, hlater⟩ := S.lookup h he rfl rfl
    exact hlater.imp fun w' _ ⟨hm, hv⟩ => ⟨hm, heq, hv⟩
  | lambda formals formals' body body' =>
    obtain ⟨heq, hlater⟩ := S.newClosure h he rfl rfl
    exact hlater.imp fun w' _ ⟨hm, hv⟩ => ⟨hm, congrArg Value.closure heq, hv⟩
  | special keyword hargs => exact evalSpecial_agree (hev i i') rounds h hargs
  | call hoperator hargs =>
    refine agree_bind (hev i i' w _ _ m m' h hoperator) fun w₁ f f' m₁ m₁' hle h₁ ⟨heq, hf⟩ => ?_
    subst heq
    exact evalCall_agree hev h₁ hf (code_mono_all hle hargs)

/-- Evaluations of related code on related machines agree, for any amount of fuel. -/
theorem eval_agree (S : Simulation World) (fuel : Nat) (i i' : FrameId) :
    S.Evaluates (eval fuel i) (eval fuel i') i i' := by
  induction fuel generalizing i i' with
  | zero => exact fun _ _ _ _ _ _ _ => trivial
  | succ fuel ih =>
    intro w e e' m m' h he
    rw [eval_succ, eval_succ]
    exact evalStep_agree ih fuel i i' w e e' m m' h he

end Simulation

end PocketLisp
