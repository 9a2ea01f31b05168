import Mathlib.Data.List.Basic
import PocketLisp.Proofs.Code.Parts
import PocketLisp.Proofs.Primitive.Answers

/-!
# Proper lists

A list is proper when its chain of pairs ends in the empty list. Quoted constants are made of such
lists, and the operations make no other lists out of them.

## Main definitions

- `Value.Proper` — all lists inside a value are proper
- `Value.PrintsUndotted` — all lists inside a value are printed without a dot

## Main statements

- `Value.proper_pair_iff` — what may stand in the second place of a pair
- `Value.Proper.printsUndotted` — proper lists are printed without a dot
- `Grammar.Constant.proper` — quoted constants are proper
- `Primitive.Answer.proper` — the operations keep lists proper
-/

namespace PocketLisp

namespace Value

/-- Every chain of pairs inside the value ends in the empty list. -/
def Proper (v : Value) : Prop :=
  v.All fun w => ∀ car cdr, w = pair car cdr → ∃ items, w = ofList items

variable {v car cdr : Value} {vs : List Value}

theorem proper_of_ne_pair (h : ∀ car cdr, v ≠ pair car cdr) : v.Proper := by
  cases v with
  | pair car cdr => exact absurd rfl (h car cdr)
  | _ =>
    intro car cdr heq
    cases heq

theorem proper_nil : nil.Proper := proper_of_ne_pair (by simp)

theorem ofList_cons (v : Value) (vs : List Value) : ofList (v :: vs) = pair v (ofList vs) := rfl

theorem ofList_eq_nil_or_pair (vs : List Value) :
    ofList vs = nil ∨ ∃ car cdr, ofList vs = pair car cdr := by
  cases vs with
  | nil => exact .inl rfl
  | cons v vs => exact .inr ⟨v, ofList vs, rfl⟩

/-- A pair is proper when its parts are and the second one is the empty list or a pair. -/
theorem proper_pair_iff :
    (pair car cdr).Proper ↔
      car.Proper ∧ cdr.Proper ∧ (cdr = nil ∨ ∃ a d, cdr = pair a d) := by
  constructor
  · rintro ⟨hlist, hcar, hcdr⟩
    obtain ⟨items, hitems⟩ := hlist car cdr rfl
    cases items with
    | nil => cases hitems
    | cons b items =>
      cases hitems
      exact ⟨hcar, hcdr, ofList_eq_nil_or_pair items⟩
  · rintro ⟨hcar, hcdr, htail⟩
    refine ⟨fun a d heq => ?_, hcar, hcdr⟩
    cases heq
    rcases htail with rfl | ⟨a, d, rfl⟩
    · exact ⟨[car], rfl⟩
    · obtain ⟨items, hitems⟩ := hcdr.1 a d rfl
      exact ⟨car :: items, congrArg (pair car) hitems⟩

theorem proper_ofList_iff : (ofList vs).Proper ↔ ∀ v ∈ vs, v.Proper := by
  induction vs with
  | nil => exact ⟨fun _ => List.forall_mem_nil _, fun _ => proper_nil⟩
  | cons v vs ih =>
    rw [List.forall_mem_cons, ← ih, ofList_cons, proper_pair_iff]
    exact ⟨fun h => ⟨h.1, h.2.1⟩, fun h => ⟨h.1, h.2, ofList_eq_nil_or_pair vs⟩⟩

/-! ### The printed form -/

theorem restChars_ofList (vs : List Value) :
    (ofList vs).restChars = (vs.flatMap fun v => ' ' :: v.chars) ++ [')'] := by
  induction vs with
  | nil => rfl
  | cons v vs ih =>
    rw [ofList_cons, restChars, ih, List.flatMap_cons, List.append_assoc, List.cons_append]

/-- The items of a proper list are printed in parentheses, with single spaces between them and
nothing else. -/
theorem text_ofList (v : Value) (vs : List Value) :
    (ofList (v :: vs)).text = "(" ++ " ".intercalate ((v :: vs).map text) ++ ")" := by
  have hspaces : [' '].intercalate ((v :: vs).map chars) =
      v.chars ++ vs.flatMap fun v => ' ' :: v.chars := by
    induction vs generalizing v with
    | nil => simp [List.intercalate]
    | cons v' vs ih =>
      simp only [List.map_cons, List.intercalate_cons_cons, List.flatMap_cons] at ih ⊢
      rw [ih]
      simp
  have htext : ∀ w : Value, w.text.toList = w.chars := fun w => String.toList_ofList
  rw [← String.toList_inj, htext]
  rw [ofList_cons, chars, restChars_ofList]
  simp only [String.toList_append, String.toList_intercalate, List.map_map, Function.comp_def,
    htext]
  show _ = ['('] ++ [' '].intercalate ((v :: vs).map chars) ++ [')']
  rw [hspaces]
  simp

/-- Every pair inside the value is printed as the list of its items, without a dot. -/
def PrintsUndotted (v : Value) : Prop :=
  v.All fun w => ∀ car cdr, w = pair car cdr → ∃ items, w = ofList items ∧
    w.text = "(" ++ " ".intercalate (items.map text) ++ ")"

theorem Proper.printsUndotted (h : v.Proper) : v.PrintsUndotted := by
  refine h.imp fun w hw car cdr hpair => ?_
  obtain ⟨items, rfl⟩ := hw car cdr hpair
  cases items with
  | nil => cases hpair
  | cons v vs => exact ⟨v :: vs, rfl, text_ofList v vs⟩

end Value

/-! ### Where values come from -/

mutual

/-- A quoted constant is made of proper lists. -/
theorem Grammar.Constant.proper :
    ∀ {ls : List Lexeme} {v : Value} {rest : List Lexeme}, Constant ls v rest → v.Proper
  | _, _, _, .number _ => Value.proper_of_ne_pair (by simp)
  | _, _, _, .symbol _ => Value.proper_of_ne_pair (by simp)
  | _, _, _, .list h => Value.proper_ofList_iff.2 h.proper

theorem Grammar.Constants.proper :
    ∀ {ls : List Lexeme} {vs : List Value} {rest : List Lexeme}, Constants ls vs rest →
      ∀ v ∈ vs, v.Proper
  | _, _, _, .nil => nofun
  | _, _, _, .cons h hs => List.forall_mem_cons.2 ⟨h.proper, hs.proper⟩

end

namespace Primitive

variable {args : List Value} {v : Value} {out : Sink}

/-- What an operation answers with is made of proper lists if its arguments are. -/
theorem Answer.proper (hargs : ∀ a ∈ args, a.Proper) (h : Answer args v) : v.Proper := by
  cases h with
  | number n => exact Value.proper_of_ne_pair (by simp)
  | truth b =>
    cases b with
    | false => exact Value.proper_nil
    | true => exact Value.proper_of_ne_pair (by simp [Value.ofBool, Value.truth])
  | single ha => exact Value.proper_pair_iff.2 ⟨hargs _ ha, Value.proper_nil, .inl rfl⟩
  | cons ha htail =>
    exact Value.proper_pair_iff.2 ⟨hargs _ ha, hargs _ htail, .inr ⟨_, _, rfl⟩⟩
  | car h => exact (Value.proper_pair_iff.1 (hargs _ h)).1
  | cdr h => exact (Value.proper_pair_iff.1 (hargs _ h)).2.1
  | same h => exact hargs _ h

theorem half_eq_ok {name : String} {choose : Value → Value → Value}
    (h : half name choose args = .ok v) : ∃ a d, args = [.pair a d] ∧ v = choose a d := by
  rcases args with _ | ⟨w, _ | ⟨_, _⟩⟩
  · cases h
  · cases w with
    | pair a d =>
      cases h
      exact ⟨a, d, rfl, rfl⟩
    | _ => cases h
  · cases h

/-- `cdr` answers only when it is applied to a pair, and then with the second part of it. -/
theorem args_of_cdr (h : (cdr.apply args out).1 = .ok v) : ∃ a, args = [.pair a v] := by
  unfold apply at h
  split at h
  · cases h
  · obtain ⟨a, d, hargs, rfl⟩ := half_eq_ok h
    exact ⟨a, hargs⟩

end Primitive

end PocketLisp
