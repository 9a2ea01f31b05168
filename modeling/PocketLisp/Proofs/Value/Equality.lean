import Mathlib.Data.List.Forall2
import PocketLisp.Proofs.Primitive.Arity

/-!
# Equality of values

Equal values are trees of pairs of one shape with equal leaves, and no primitive operation tells
them apart.

## Main definitions

- `Value.Equal` — one shape, and leaves that are equal by number, by name or by identity
- `Primitive.Agree` — equal values or the same error, and the same written

## Main statements

- `Value.beq_iff_equal` — the comparison decides this relation
- `Value.Equal.kind_eq`, `Value.Equal.text_eq` — equal values are named and printed alike
- `Primitive.run_one_agree`, `Primitive.run_two_agree` — operations on equal arguments
- `Value.equality_unseen` — what equality of values is, and that no operation sees through it

## Design notes

What an operation looks at is the number of its arguments, their kinds, numbers and texts, and the
parts of pairs. Each of these is the same for equal values, or equal again, and that is all that is
used: nothing depends on how few values are equal to each other.
-/

namespace PocketLisp

namespace Value

/-- Trees of pairs of one shape. Leaves are equal by number, by the name of a symbol, by the
identity of a closure, by the name of an operation, and the empty list is equal to itself alone. -/
inductive Equal : Value → Value → Prop
  | nil : Equal nil nil
  | number (n : Word) : Equal (number n) (number n)
  | symbol (name : String) : Equal (symbol name) (symbol name)
  | pair {a a' d d' : Value} : Equal a a' → Equal d d' → Equal (pair a d) (pair a' d')
  | closure (id : ClosureId) : Equal (closure id) (closure id)
  | primitive {p q : Primitive} : p.name = q.name → Equal (primitive p) (primitive q)

variable {u v w : Value}

theorem equal_of_beq (h : v.beq w = true) : Equal v w := by
  induction v generalizing w with
  | pair a d iha ihd =>
    cases w with
    | pair a' d' =>
      obtain ⟨ha, hd⟩ := Bool.and_eq_true_iff.1 h
      exact .pair (iha ha) (ihd hd)
    | _ => cases h
  | nil =>
    cases w with
    | nil => exact .nil
    | _ => cases h
  | number n =>
    cases w with
    | number n' => exact (eq_of_beq h : n = n') ▸ .number n
    | _ => cases h
  | symbol name =>
    cases w with
    | symbol name' => exact (eq_of_beq h : name = name') ▸ .symbol name
    | _ => cases h
  | closure id =>
    cases w with
    | closure id' => exact (eq_of_beq h : id = id') ▸ .closure id
    | _ => cases h
  | primitive p =>
    cases w with
    | primitive q => exact .primitive (eq_of_beq h)
    | _ => cases h

theorem Equal.beq (h : Equal v w) : v.beq w = true := by
  induction h with
  | nil => rfl
  | number n => exact beq_self_eq_true n
  | symbol name => exact beq_self_eq_true name
  | pair _ _ iha ihd => exact Bool.and_eq_true_iff.2 ⟨iha, ihd⟩
  | closure id => exact beq_self_eq_true id
  | primitive h => exact beq_iff_eq.2 h

/-- The comparison decides the relation. -/
theorem beq_iff_equal : (v == w) = true ↔ Equal v w := ⟨equal_of_beq, Equal.beq⟩

/-! ### An equivalence -/

theorem Equal.refl (v : Value) : Equal v v := by
  induction v with
  | nil => exact .nil
  | number n => exact .number n
  | symbol name => exact .symbol name
  | pair a d iha ihd => exact .pair iha ihd
  | closure id => exact .closure id
  | primitive p => exact .primitive rfl

theorem Equal.symm (h : Equal v w) : Equal w v := by
  induction h with
  | nil => exact .nil
  | number n => exact .number n
  | symbol name => exact .symbol name
  | pair _ _ iha ihd => exact .pair iha ihd
  | closure id => exact .closure id
  | primitive h => exact .primitive h.symm

theorem Equal.trans (h : Equal u v) (h' : Equal v w) : Equal u w := by
  induction h generalizing w with
  | pair _ _ iha ihd =>
    cases h' with
    | pair ha hd => exact .pair (iha ha) (ihd hd)
  | primitive h =>
    cases h' with
    | primitive h' => exact .primitive (h.trans h')
  | _ => exact h'

theorem beq_equivalence : Equivalence fun v w : Value => (v == w) = true where
  refl v := (Equal.refl v).beq
  symm h := (equal_of_beq h).symm.beq
  trans h h' := ((equal_of_beq h).trans (equal_of_beq h')).beq

/-! ### What is the same for equal values -/

theorem Equal.kind_eq (h : Equal v w) : v.kind = w.kind := by
  cases h <;> rfl

/-- Equal values have the same text, both by themselves and as the end of a list. -/
theorem Equal.chars_eq (h : Equal v w) : v.chars = w.chars ∧ v.restChars = w.restChars := by
  induction h with
  | pair _ _ iha ihd =>
    simp only [chars, restChars, iha.1, ihd.2, and_self]
  | @primitive p q h =>
    have hleaf : (Value.primitive p).leafChars = (Value.primitive q).leafChars :=
      congrArg String.toList h
    exact ⟨hleaf, congrArg (fun cs => ' ' :: '.' :: ' ' :: (cs ++ [')'])) hleaf⟩
  | nil | number | symbol | closure => trivial

theorem Equal.text_eq (h : Equal v w) : v.text = w.text := congrArg String.ofList h.chars_eq.1

end Value

namespace Primitive

open Value (Equal)

/-- Both results are values and these are equal, or both are the same error; and afterwards both
sinks are the same. -/
inductive Agree : Except Error Value × Sink → Except Error Value × Sink → Prop
  | ok {v w : Value} (out : Sink) : (v == w) = true → Agree (.ok v, out) (.ok w, out)
  | error (e : Error) (out : Sink) : Agree (.error e, out) (.error e, out)

variable {name : String} {a a' b b' v w : Value} {args args' : List Value}

theorem Agree.refl (r : Except Error Value × Sink) : Agree r r := by
  obtain ⟨e | v, out⟩ := r
  · exact .error e out
  · exact .ok out (Equal.refl v).beq

theorem Agree.of_eq {x y : Except Error Value} (h : x = y) (out : Sink) :
    Agree (x, out) (y, out) := h ▸ .refl (x, out)

/-! ### Operations on two values -/

theorem twoNumbers_eq (ha : Equal a a') (hb : Equal b b') :
    twoNumbers name [a, b] = twoNumbers name [a', b'] := by
  cases ha <;> cases hb <;> rfl

theorem arithmetic_eq {op : Word → Word → Except Error Word} (ha : Equal a a') (hb : Equal b b') :
    arithmetic name op [a, b] = arithmetic name op [a', b'] := by
  rw [arithmetic, arithmetic, twoNumbers_eq ha hb]

theorem comparison_eq {holds : Word → Word → Bool} (ha : Equal a a') (hb : Equal b b') :
    comparison name holds [a, b] = comparison name holds [a', b'] := by
  rw [comparison, comparison, twoNumbers_eq ha hb]

theorem same_eq (ha : Equal a a') (hb : Equal b b') : same a b = same a' b' := by
  cases ha <;> cases hb <;> rfl

theorem runCons_agree (ha : Equal a a') (hb : Equal b b') (out : Sink) :
    Agree (runCons [a, b], out) (runCons [a', b'], out) := by
  have htext := hb.text_eq
  cases hb with
  | nil => exact .ok out (Equal.pair ha .nil).beq
  | pair hcar hcdr => exact .ok out (Equal.pair ha (.pair hcar hcdr)).beq
  | _ => exact .of_eq (congrArg (fun text => .error (.malformedList text)) htext) out

/-- An operation on two values does not tell equal ones apart. -/
theorem run_two_agree {p : Primitive} (hp : p.arity = 2) (ha : Equal a a') (hb : Equal b b')
    (out : Sink) : Agree (p.run [a, b] out) (p.run [a', b'] out) := by
  cases p with
  | add | sub | mul | div => exact .of_eq (arithmetic_eq ha hb) out
  | less | greater => exact .of_eq (comparison_eq ha hb) out
  | equal => exact .of_eq (congrArg (fun answer => .ok (.ofBool answer)) (same_eq ha hb)) out
  | cons => exact runCons_agree ha hb out
  | _ => cases hp

/-! ### Operations on one value -/

theorem half_agree {choose : Value → Value → Value}
    (hchoose : ∀ {a a' d d'}, Equal a a' → Equal d d' → Equal (choose a d) (choose a' d'))
    (h : Equal v w) (out : Sink) :
    Agree (half name choose [v], out) (half name choose [w], out) := by
  cases h with
  | pair ha hd => exact .ok out (hchoose ha hd).beq
  | _ => exact .error _ out

theorem runPrint_agree (h : Equal v w) (out : Sink) :
    Agree (runPrint [v] out) (runPrint [w] out) := by
  simp only [runPrint, oneValue, h.text_eq]
  split
  · exact .ok _ h.beq
  · exact .error _ _

/-- An operation on one value does not tell equal ones apart. -/
theorem run_one_agree {p : Primitive} (hp : p.arity = 1) (h : Equal v w) (out : Sink) :
    Agree (p.run [v] out) (p.run [w] out) := by
  cases p with
  | car => exact half_agree (fun ha _ => ha) h out
  | cdr => exact half_agree (fun _ hd => hd) h out
  | isNumber | isSymbol | isList | isNull | isPrimitive | isClosure =>
    cases h <;> exact .refl _
  | print => exact runPrint_agree h out
  | _ => cases hp

/-! ### All operations -/

theorem arity_eq_one_or_two (p : Primitive) : p.arity = 1 ∨ p.arity = 2 := by
  cases p <;> decide

/-- Operations on equal arguments agree, whether or not they take that many. -/
theorem apply_agree (p : Primitive) (h : List.Forall₂ Equal args args') (out : Sink) :
    Agree (p.apply args out) (p.apply args' out) := by
  rw [apply, apply, ← h.length_eq]
  by_cases hlength : args.length = p.arity
  · rw [checkArity_of_length_eq hlength]
    rcases arity_eq_one_or_two p with hp | hp
    · obtain ⟨v, rfl⟩ := List.length_eq_one_iff.1 (hlength.trans hp)
      obtain ⟨w, _, hv, hrest, rfl⟩ := List.forall₂_cons_left_iff.1 h
      obtain rfl := List.forall₂_nil_left_iff.1 hrest
      exact run_one_agree hp hv out
    · obtain ⟨a, b, rfl⟩ := List.length_eq_two.1 (hlength.trans hp)
      obtain ⟨a', _, ha, hrest, rfl⟩ := List.forall₂_cons_left_iff.1 h
      obtain ⟨b', _, hb, hnil, rfl⟩ := List.forall₂_cons_left_iff.1 hrest
      obtain rfl := List.forall₂_nil_left_iff.1 hnil
      exact run_two_agree hp ha hb out
  · rw [checkArity_of_length_ne hlength]
    exact .error _ out

/-- What `=` takes for equal is equal, and is a number, a symbol or the empty list. -/
theorem same_iff : same a b = true ↔
    Equal a b ∧ (a.kind = "number" ∨ a.kind = "symbol" ∨ a.kind = "nil") := by
  constructor
  · intro h
    cases a <;> cases b <;> first | cases h | skip
    · exact ⟨.nil, by decide⟩
    · exact ⟨(eq_of_beq h : _ = _) ▸ .number _, by simp [Value.kind]⟩
    · exact ⟨(eq_of_beq h : _ = _) ▸ .symbol _, by simp [Value.kind]⟩
  · rintro ⟨h, hkind⟩
    cases h with
    | nil => rfl
    | number n => exact beq_self_eq_true n
    | symbol name => exact beq_self_eq_true name
    | pair | closure | primitive => simp [Value.kind] at hkind

theorem ofBool_eq_truth_iff {answer : Bool} : Value.ofBool answer = .truth ↔ answer = true := by
  cases answer <;> simp [Value.ofBool, Value.truth]

end Primitive

/-- Equality compares the shapes and the leaves of two trees of pairs. It is an equivalence; equal
values are printed alike and are of one kind; and an operation that is given equal arguments gives
equal values, or fails with the same error, and writes the same. What `=` answers with truth are the
equal numbers, the equal symbols and the empty list. -/
theorem Value.equality_unseen :
    (∀ v w : Value, (v == w) = true ↔ Equal v w) ∧
    (Equivalence fun v w : Value => (v == w) = true) ∧
    (∀ v w : Value, (v == w) = true → v.text = w.text ∧ v.kind = w.kind) ∧
    (∀ p ∈ Primitive.all, ∀ args args',
      List.Forall₂ (fun v w : Value => (v == w) = true) args args' → ∀ out,
        Primitive.Agree (p.apply args out) (p.apply args' out)) ∧
    (∀ (a b : Value) (out : Sink), (Primitive.equal.apply [a, b] out).1 = .ok .truth ↔
      (a == b) = true ∧ (a.kind = "number" ∨ a.kind = "symbol" ∨ a.kind = "nil")) := by
  refine ⟨fun _ _ => beq_iff_equal, beq_equivalence, fun v w h => ?_,
    fun p _ args args' h out => ?_, fun a b out => ?_⟩
  · have hequal := beq_iff_equal.1 h
    exact ⟨hequal.text_eq, hequal.kind_eq⟩
  · exact p.apply_agree (h.imp fun _ _ => beq_iff_equal.1) out
  · rw [beq_iff_equal, ← Primitive.same_iff, ← Primitive.ofBool_eq_truth_iff]
    exact ⟨Except.ok.inj, congrArg _⟩

/-- A list that holds a closure is equal to itself, and a full sink keeps it from being printed each
time. `=` does not take it for equal to itself, as it does a symbol. -/
theorem Value.equality_unseen_pair :
    (pair (closure 0) nil == pair (closure 0) nil) = true ∧
    Primitive.Agree (Primitive.print.apply [pair (closure 0) nil] (.limited 3))
      (Primitive.print.apply [pair (closure 0) nil] (.limited 3)) ∧
    (Primitive.equal.apply [pair (closure 0) nil, pair (closure 0) nil] .unlimited).1 ≠
      .ok .truth ∧
    (Primitive.equal.apply [symbol "a", symbol "a"] .unlimited).1 = .ok .truth := by
  obtain ⟨hequal, -, -, hagree, htruth⟩ := equality_unseen
  have hlist := (hequal _ _).2 (.refl (pair (closure 0) nil))
  refine ⟨hlist, hagree .print (by decide) _ _ (.cons hlist .nil) _, fun h => ?_, ?_⟩
  · exact absurd ((htruth _ _ _).1 h).2 (by decide)
  · exact (htruth _ _ _).2 ⟨(hequal _ _).2 (.refl _), by decide⟩

end PocketLisp
