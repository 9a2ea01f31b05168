import PocketLisp.Primitive.Apply

/-!
# What the primitive operations answer

## Main definitions

- `Error.IsInternal` — the error reports an expression tree that no form is read as
- `Primitive.Answer` — the values that an operation can answer with, given its arguments
- `Primitive.Proper` — an answer, or an error that is no internal one

## Main statements

- `Primitive.apply_proper` — an operation has no other result
-/

namespace PocketLisp

/-- Whether an error reports an expression tree that no form is read as. -/
def Error.IsInternal (e : Error) : Prop := ∃ detail, e = .internal detail

namespace Primitive

/-- The values that an operation can answer with: numbers, truth values, a pair that prolongs a
list, and parts of its arguments. -/
inductive Answer (args : List Value) : Value → Prop
  | number (n : Word) : Answer args (.number n)
  | truth (b : Bool) : Answer args (.ofBool b)
  | single {a : Value} : a ∈ args → Answer args (.pair a .nil)
  | cons {a b d : Value} : a ∈ args → .pair b d ∈ args → Answer args (.pair a (.pair b d))
  | car {a d : Value} : .pair a d ∈ args → Answer args a
  | cdr {a d : Value} : .pair a d ∈ args → Answer args d
  | same {a : Value} : a ∈ args → Answer args a

/-- An answer, or an error that is no internal one. -/
def Proper (args : List Value) : Except Error Value → Prop
  | .ok v => Answer args v
  | .error e => ¬ e.IsInternal

variable {args : List Value} {name : String}

theorem Proper.bind {α : Type} {x : Except Error α} {f : α → Except Error Value}
    (herror : ∀ e, x = .error e → ¬ e.IsInternal) (hok : ∀ a, x = .ok a → Proper args (f a)) :
    Proper args (x >>= f) := by
  cases x with
  | error e => exact herror e rfl
  | ok a => exact hok a rfl

/-! ### Operations on two numbers -/

theorem not_isInternal_of_twoNumbers {e : Error} (h : twoNumbers name args = .error e) :
    ¬ e.IsInternal := by
  unfold twoNumbers at h
  split at h <;> cases h <;> exact fun ⟨_, h⟩ => nomatch h

theorem not_isInternal_of_exactly {operation : String} {i : Int} {e : Error}
    (h : Word.exactly operation i = .error e) : ¬ e.IsInternal := by
  unfold Word.exactly at h
  split at h <;> cases h
  exact fun ⟨_, h⟩ => nomatch h

theorem not_isInternal_of_floorDiv? {a b : Word} {e : Error}
    (h : Word.floorDiv? a b = .error e) : ¬ e.IsInternal := by
  unfold Word.floorDiv? at h
  split at h
  · cases h
    exact fun ⟨_, h⟩ => nomatch h
  · cases hquotient : Word.truncDiv? a b with
    | error e' =>
      rw [hquotient] at h
      cases h
      exact not_isInternal_of_exactly hquotient
    | ok q =>
      rw [hquotient] at h
      cases h

theorem arithmetic_proper {op : Word → Word → Except Error Word}
    (hop : ∀ a b e, op a b = .error e → ¬ e.IsInternal) :
    Proper args (arithmetic name op args) := by
  refine .bind (fun _ => not_isInternal_of_twoNumbers) fun (a, b) _ => ?_
  exact .bind (hop a b) fun n _ => .number n

theorem comparison_proper {holds : Word → Word → Bool} :
    Proper args (comparison name holds args) :=
  .bind (fun _ => not_isInternal_of_twoNumbers) fun (a, b) _ => .truth (holds a b)

/-! ### Operations on one value -/

theorem not_isInternal_of_oneValue {e : Error} (h : oneValue name args = .error e) :
    ¬ e.IsInternal := by
  unfold oneValue at h
  split at h <;> cases h
  exact fun ⟨_, h⟩ => nomatch h

theorem mem_of_oneValue {v : Value} (h : oneValue name args = .ok v) : v ∈ args := by
  unfold oneValue at h
  split at h <;> cases h
  exact List.mem_singleton_self v

theorem test_proper {holds : Value → Bool} : Proper args (test name holds args) :=
  .bind (fun _ => not_isInternal_of_oneValue) fun v _ => .truth (holds v)

theorem half_proper {choose : Value → Value → Value}
    (h : ∀ a d, choose a d = a ∨ choose a d = d) : Proper args (half name choose args) := by
  refine .bind (fun _ => not_isInternal_of_oneValue) fun v hv => ?_
  have hmem := mem_of_oneValue hv
  cases v with
  | pair a d =>
    show Answer args (choose a d)
    rcases h a d with h | h <;> rw [h]
    · exact .car hmem
    · exact .cdr hmem
  | _ => exact fun ⟨_, h⟩ => nomatch h

theorem runPrint_proper {out : Sink} : Proper args (runPrint args out).1 := by
  unfold runPrint
  split
  · next h => exact not_isInternal_of_oneValue h
  · next v h =>
    split
    · exact .same (mem_of_oneValue h)
    · exact fun ⟨_, h⟩ => nomatch h

/-! ### Operations on two values -/

theorem runEqual_proper : Proper args (runEqual args) := by
  unfold runEqual
  split
  · exact .truth _
  · exact fun ⟨_, h⟩ => nomatch h

theorem runCons_proper : Proper args (runCons args) := by
  unfold runCons
  split
  · exact .cons (by simp) (by simp)
  · exact .single (by simp)
  · exact fun ⟨_, h⟩ => nomatch h
  · exact fun ⟨_, h⟩ => nomatch h

/-! ### All operations -/

theorem run_proper (p : Primitive) (args : List Value) (out : Sink) :
    Proper args (p.run args out).1 := by
  cases p with
  | add | sub | mul => exact arithmetic_proper fun _ _ _ => not_isInternal_of_exactly
  | div => exact arithmetic_proper fun _ _ _ => not_isInternal_of_floorDiv?
  | less | greater =>
    simp only [run]
    exact comparison_proper
  | equal => exact runEqual_proper
  | cons => exact runCons_proper
  | car => exact half_proper fun _ _ => .inl rfl
  | cdr => exact half_proper fun _ _ => .inr rfl
  | isNumber | isSymbol | isList | isNull | isPrimitive | isClosure => exact test_proper
  | print => exact runPrint_proper

/-- An operation answers with numbers, truth values and what its arguments are made of, and
reports no internal error. -/
theorem apply_proper (p : Primitive) (args : List Value) (out : Sink) :
    Proper args (p.apply args out).1 := by
  unfold apply checkArity
  split
  · next h =>
    split at h <;> cases h
    exact fun ⟨_, h⟩ => nomatch h
  · exact run_proper p args out

end Primitive

end PocketLisp
