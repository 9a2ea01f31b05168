import Mathlib.Data.List.Basic
import PocketLisp.Primitive.Apply

/-!
# How many arguments an operation takes

The table of operations says how many arguments each of them takes, and every operation also sees to
it by itself. Both have the same names and numbers, so it makes no difference whether the table is
asked first.

## Main definitions

- `Error.IsArity` — the error reports a wrong number of arguments of an operation
- `Primitive.CountsArgs` — a function takes so many arguments and refuses any other number
- `Primitive.SeesToArity` — an operation takes as many arguments as the table says

## Main statements

- `Primitive.countsArgs_twoNumbers`, `Primitive.countsArgs_oneValue` — taking arguments apart
- `Primitive.CountsArgs.bind` — what is done with the arguments then is of no account
- `Primitive.seesToArity` — every operation sees to the number in the table
- `Primitive.apply_agrees_with_run` — asking the table first makes no difference
-/

namespace PocketLisp

/-- Whether an error reports a wrong number of arguments of an operation. -/
def Error.IsArity (e : Error) : Prop := ∃ callee expected got, e = .arity callee expected got

namespace Primitive

/-- The function takes `count` arguments: any other number it refuses in the name of `name`, and
this number it never refuses. -/
structure CountsArgs {α : Type} (name : String) (count : Nat) (f : List Value → Except Error α) :
    Prop where
  refuses : ∀ args, args.length ≠ count → f args = .error (.arity name count args.length)
  accepts : ∀ args e, args.length = count → f args = .error e → ¬ e.IsArity

variable {α β : Type} {name : String} {count : Nat} {f : List Value → Except Error α}
  {g : α → Except Error β}

/-! ### Taking arguments apart -/

theorem countsArgs_twoNumbers (name : String) : CountsArgs name 2 (twoNumbers name) where
  refuses args hlength := by
    unfold twoNumbers
    split
    · exact absurd rfl hlength
    · exact absurd rfl hlength
    · rfl
  accepts args e hlength he := by
    rintro ⟨callee, expected, got, rfl⟩
    unfold twoNumbers at he
    split at he
    · cases he
    · cases he
    · next hother =>
      obtain ⟨a, b, rfl⟩ := List.length_eq_two.1 hlength
      exact hother a b rfl

theorem countsArgs_oneValue (name : String) : CountsArgs name 1 (oneValue name) where
  refuses args hlength := by
    unfold oneValue
    split
    · exact absurd rfl hlength
    · rfl
  accepts args e hlength he := by
    obtain ⟨v, rfl⟩ := List.length_eq_one_iff.1 hlength
    cases he

/-- What is done with the arguments once they are taken apart is of no account, unless it finds
their number wrong after all. -/
theorem CountsArgs.bind (hf : CountsArgs name count f)
    (hg : ∀ a e, g a = .error e → ¬ e.IsArity) :
    CountsArgs name count fun args => f args >>= g where
  refuses args hlength := by
    rw [hf.refuses args hlength]
    rfl
  accepts args e hlength he := by
    cases hargs : f args with
    | error e' =>
      rw [hargs] at he
      cases he
      exact hf.accepts args e hlength hargs
    | ok a =>
      rw [hargs] at he
      exact hg a e he

/-! ### Operations on two numbers -/

theorem not_isArity_of_exactly {operation : String} {i : Int} {e : Error}
    (h : Word.exactly operation i = .error e) : ¬ e.IsArity := by
  rintro ⟨callee, expected, got, rfl⟩
  unfold Word.exactly at h
  split at h <;> cases h

theorem not_isArity_of_floorDiv? {a b : Word} {e : Error} (h : Word.floorDiv? a b = .error e) :
    ¬ e.IsArity := by
  unfold Word.floorDiv? at h
  split at h
  · cases h
    exact fun ⟨_, _, _, h⟩ => nomatch h
  · cases hquotient : Word.truncDiv? a b with
    | error e' =>
      rw [hquotient] at h
      cases h
      exact not_isArity_of_exactly hquotient
    | ok q =>
      rw [hquotient] at h
      cases h

theorem countsArgs_arithmetic {op : Word → Word → Except Error Word}
    (hop : ∀ a b e, op a b = .error e → ¬ e.IsArity) :
    CountsArgs name 2 (arithmetic name op) := by
  apply (countsArgs_twoNumbers name).bind
  intro (a, b) e he
  dsimp only at he
  cases hresult : op a b with
  | error e' =>
    rw [hresult] at he
    cases he
    exact hop a b e hresult
  | ok n =>
    rw [hresult] at he
    cases he

theorem countsArgs_comparison (holds : Word → Word → Bool) :
    CountsArgs name 2 (comparison name holds) := by
  apply (countsArgs_twoNumbers name).bind
  intro (a, b) e he
  cases he

/-! ### Operations on one value -/

theorem countsArgs_test (holds : Value → Bool) : CountsArgs name 1 (test name holds) := by
  apply (countsArgs_oneValue name).bind
  intro v e he
  cases he

theorem countsArgs_half (choose : Value → Value → Value) :
    CountsArgs name 1 (half name choose) := by
  apply (countsArgs_oneValue name).bind
  rintro v e he ⟨callee, expected, got, rfl⟩
  cases v <;> cases he

/-! ### Operations on two values -/

theorem countsArgs_runEqual : CountsArgs "=" 2 runEqual where
  refuses args hlength := by
    unfold runEqual
    split
    · exact absurd rfl hlength
    · rfl
  accepts args e hlength he := by
    obtain ⟨a, b, rfl⟩ := List.length_eq_two.1 hlength
    cases he

theorem countsArgs_runCons : CountsArgs "cons" 2 runCons where
  refuses args hlength := by
    unfold runCons
    split
    · exact absurd rfl hlength
    · exact absurd rfl hlength
    · exact absurd rfl hlength
    · rfl
  accepts args e hlength he := by
    obtain ⟨a, b, rfl⟩ := List.length_eq_two.1 hlength
    rintro ⟨callee, expected, got, rfl⟩
    cases b <;> cases he

/-! ### All operations -/

/-- The operation by itself takes as many arguments as the table says. Any other number it refuses
as the table does, and then it writes nothing. -/
structure SeesToArity (p : Primitive) : Prop where
  refuses : ∀ args out, args.length ≠ p.arity →
    p.run args out = (.error (.arity p.name p.arity args.length), out)
  accepts : ∀ args out e, args.length = p.arity → (p.run args out).1 = .error e → ¬ e.IsArity

variable {p : Primitive}

/-- An operation that writes nothing sees to the number of its arguments if its function does. -/
theorem CountsArgs.seesToArity {f : List Value → Except Error Value}
    (hf : CountsArgs p.name p.arity f) (hrun : ∀ args out, p.run args out = (f args, out)) :
    SeesToArity p where
  refuses args out hlength := by rw [hrun, hf.refuses args hlength]
  accepts args out e hlength he := by
    rw [hrun] at he
    exact hf.accepts args e hlength he

theorem seesToArity_print : SeesToArity print where
  refuses args out hlength := by
    rw [run, runPrint, (countsArgs_oneValue "print").refuses args hlength]
    rfl
  accepts args out e hlength he := by
    obtain ⟨v, rfl⟩ := List.length_eq_one_iff.1 hlength
    rintro ⟨callee, expected, got, rfl⟩
    -- What a sink reports is never a number of arguments.
    simp only [run, runPrint, oneValue] at he
    split at he <;> cases he

/-- Every operation sees to the number of arguments that is in the table. -/
theorem seesToArity (p : Primitive) : SeesToArity p := by
  cases p with
  | add | sub | mul =>
    exact (countsArgs_arithmetic fun _ _ _ => not_isArity_of_exactly).seesToArity fun _ _ => rfl
  | div =>
    exact (countsArgs_arithmetic fun _ _ _ => not_isArity_of_floorDiv?).seesToArity fun _ _ => rfl
  | less | greater => exact (countsArgs_comparison _).seesToArity fun _ _ => rfl
  | equal => exact CountsArgs.seesToArity (p := equal) countsArgs_runEqual fun _ _ => rfl
  | cons => exact CountsArgs.seesToArity (p := cons) countsArgs_runCons fun _ _ => rfl
  | car | cdr => exact (countsArgs_half _).seesToArity fun _ _ => rfl
  | isNumber | isSymbol | isList | isNull | isPrimitive | isClosure =>
    exact (countsArgs_test _).seesToArity fun _ _ => rfl
  | print => exact seesToArity_print

theorem checkArity_of_length_eq {count : Nat} (h : count = p.arity) :
    p.checkArity count = .ok () := if_pos h

theorem checkArity_of_length_ne {count : Nat} (h : count ≠ p.arity) :
    p.checkArity count = .error (.arity p.name p.arity count) := if_neg h

/-- Asking the table first makes no difference. -/
theorem apply_eq_run (p : Primitive) (args : List Value) (out : Sink) :
    p.apply args out = p.run args out := by
  by_cases hlength : args.length = p.arity
  · rw [apply, checkArity_of_length_eq hlength]
  · rw [apply, checkArity_of_length_ne hlength, p.seesToArity.refuses args out hlength]

/-- For every operation of the table, asking it first makes no difference to the value, the error or
the output. What the table refuses, the operation by itself refuses with the same error, and once
the table accepted a number of arguments, no error is about their number. -/
theorem apply_agrees_with_run : ∀ p ∈ all, ∀ args out,
    p.apply args out = p.run args out ∧
    (∀ e, p.checkArity args.length = .error e → p.run args out = (.error e, out)) ∧
    (p.checkArity args.length = .ok () → ∀ e,
      (p.apply args out).1 = .error e ∨ (p.run args out).1 = .error e → ¬ e.IsArity) := by
  intro p _ args out
  have happly := apply_eq_run p args out
  refine ⟨happly, fun e he => ?_, fun hok e he => ?_⟩
  · by_cases hlength : args.length = p.arity
    · rw [checkArity_of_length_eq hlength] at he
      cases he
    · rw [checkArity_of_length_ne hlength] at he
      cases he
      exact p.seesToArity.refuses args out hlength
  · have hlength : args.length = p.arity := by
      by_contra hlength
      rw [checkArity_of_length_ne hlength] at hok
      cases hok
    rw [happly, or_self] at he
    exact p.seesToArity.accepts args out e hlength he

/-- `cons` of one value is refused for their number, and that of two numbers for another reason. -/
theorem apply_agrees_with_run_cons :
    cons.run [.number 1] .unlimited = (.error (.arity "cons" 2 1), .unlimited) ∧
    cons.apply [.number 1, .number 2] .unlimited =
      (.error (.malformedList (Value.number 2).text), .unlimited) ∧
    ¬ (Error.malformedList (Value.number 2).text).IsArity := by
  obtain ⟨-, hrefuses, -⟩ := apply_agrees_with_run cons (mem_all cons) [.number 1] .unlimited
  obtain ⟨-, -, haccepts⟩ :=
    apply_agrees_with_run cons (mem_all cons) [.number 1, .number 2] .unlimited
  exact ⟨hrefuses _ rfl, rfl, haccepts rfl _ (.inl rfl)⟩

end Primitive

end PocketLisp
