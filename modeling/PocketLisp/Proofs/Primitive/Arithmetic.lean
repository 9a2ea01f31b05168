import Mathlib.Data.Rat.Floor
import PocketLisp.Primitive.Apply

/-!
# Arithmetic is exact or refused

The four operations on numbers give the exact result, or for division the floor of the exact
quotient, and where that is no word they refuse.

## Main definitions

- `Word.IsRest` — what a division that rounds down may leave over
- `Word.FloorSteps` — a division with none of its steps out of range
- `Primitive.ExactOrRefused` — an operation gives an exact result or refuses it

## Main statements

- `Word.inRange_tdiv_iff` — the one quotient that is out of range
- `Word.exists_floorSteps` — in every other division no step is out of range
- `Word.FloorSteps.exists_rest` — what a division leaves over has the sign of the divisor
- `Primitive.arithmetic_exact_or_refused` — the four operations, on all pairs of words
-/

namespace PocketLisp

namespace Word

variable {a b t q : Word} {i : Int} {operation : String}

/-! ### Exact results -/

theorem exactly_eq_ok_iff {w : Word} : exactly operation i = .ok w ↔ w.toInt = i := by
  rw [← ofInt?_eq_some_iff, exactly]
  cases ofInt? i <;> simp

theorem exists_exactly_of_inRange (operation : String) (h : InRange i) :
    ∃ w : Word, w.toInt = i ∧ exactly operation i = .ok w := by
  obtain ⟨w, hw⟩ := exists_ofInt?_of_inRange h
  have hvalue := ofInt?_eq_some_iff.1 hw
  exact ⟨w, hvalue, exactly_eq_ok_iff.2 hvalue⟩

theorem exactly_of_not_inRange (h : ¬ InRange i) :
    exactly operation i = .error (.overflow operation) := by
  rw [exactly, ofInt?_of_not_inRange h]

/-! ### Quotients rounded toward zero -/

theorem toInt_ne_zero (hb : b ≠ 0) : b.toInt ≠ 0 := fun h =>
  hb (Int64.toInt_inj.1 (h.trans Int64.toInt_zero.symm))

theorem natAbs_tdiv_le_half {m n : Int} (hn : 2 ≤ n.natAbs) :
    (m.tdiv n).natAbs ≤ m.natAbs / 2 := by
  rw [Int.natAbs_tdiv]
  exact Nat.div_le_div_left hn (by decide)

/-- The one quotient of words that is out of range is that of the least word and -1. -/
theorem inRange_tdiv_iff (hb : b ≠ 0) :
    InRange (a.toInt.tdiv b.toInt) ↔ ¬ (a = Int64.minValue ∧ b = -1) := by
  have hb0 := toInt_ne_zero hb
  obtain ⟨hlow, hhigh⟩ := inRange_toInt a
  constructor
  · rintro hrange ⟨rfl, rfl⟩
    exact absurd hrange.2 (by decide)
  · intro hne
    by_cases hunit : b.toInt.natAbs = 1
    · rcases Int.natAbs_eq_iff.1 hunit with hone | hone
      · rw [hone]
        simpa using inRange_toInt a
      · have hmin : a.toInt ≠ -0x8000000000000000 := fun h =>
          hne ⟨Int64.toInt_inj.1 h, Int64.toInt_inj.1 hone⟩
        rw [hone, Int.tdiv_neg, Nat.cast_one, Int.tdiv_one]
        constructor <;> omega
    · have hhalf := natAbs_tdiv_le_half (m := a.toInt) (n := b.toInt) (by omega)
      constructor <;> omega

theorem truncDiv?_of_overflow : truncDiv? Int64.minValue (-1) = .error (.overflow "division") := rfl

theorem truncDiv?_eq_ok_iff : truncDiv? a b = .ok t ↔ t.toInt = a.toInt.tdiv b.toInt :=
  exactly_eq_ok_iff

theorem lt_zero_iff (w : Word) : w < 0 ↔ w.toInt < 0 := by
  rw [Int64.lt_iff_toInt_lt, Int64.toInt_zero]

theorem roundedUp_iff (a b : Word) :
    roundedUp a b = true ↔ a.toInt.tmod b.toInt ≠ 0 ∧ (a.toInt < 0 ↔ ¬ b.toInt < 0) := by
  have hzero : a % b ≠ 0 ↔ a.toInt.tmod b.toInt ≠ 0 := by
    rw [ne_eq, ← Int64.toInt_inj, Int64.toInt_mod, Int64.toInt_zero]
  have hsigns : decide (a < 0) ≠ decide (b < 0) ↔ (a.toInt < 0 ↔ ¬ b.toInt < 0) := by
    simp only [lt_zero_iff]
    by_cases ha : a.toInt < 0 <;> by_cases hb : b.toInt < 0 <;> simp [ha, hb]
  rw [roundedUp, Bool.and_eq_true, bne_iff_ne, bne_iff_ne, hzero, hsigns]

/-! ### Division that rounds down -/

/-- What a division that rounds down leaves over: nothing, or less than the divisor and with its
sign. -/
def IsRest (divisor rest : Int) : Prop :=
  (rest = 0 ∨ rest.sign = divisor.sign) ∧ |rest| < |divisor|

/-- The steps of a division to `q`, first rounded toward zero to `t`, are those of the integers: the
quotient is in range, and so is the remainder that is taken then, and the step down if there is
one. -/
structure FloorSteps (a b t q : Word) : Prop where
  quotient : t.toInt = a.toInt.tdiv b.toInt
  remainder : (a % b).toInt = a.toInt.tmod b.toInt
  down : q.toInt = if roundedUp a b then t.toInt - 1 else t.toInt

/-- Where something remains, the step down from the quotient stays in range. -/
theorem toInt_sub_one (ht : t.toInt = a.toInt.tdiv b.toInt) (hb : b ≠ 0)
    (hrest : a.toInt.tmod b.toInt ≠ 0) : (t - 1).toInt = t.toInt - 1 := by
  have hb0 := toInt_ne_zero hb
  obtain ⟨hlow, hhigh⟩ := inRange_toInt a
  have hunit : b.toInt.natAbs ≠ 1 := by
    intro hunit
    rcases Int.natAbs_eq_iff.1 hunit with hone | hone
    · exact hrest (by rw [hone]; simp)
    · exact hrest (by rw [hone]; simp)
  have hhalf := natAbs_tdiv_le_half (m := a.toInt) (n := b.toInt) (by omega)
  rw [Int64.toInt_sub, Int64.toInt_one, ht]
  exact Int.bmod_eq_of_le (by omega) (by omega)

/-- In every division but those by zero and the one whose quotient is out of range, no step is out
of range. -/
theorem exists_floorSteps (hb : b ≠ 0) (hrange : ¬ (a = Int64.minValue ∧ b = -1)) :
    ∃ t q, floorDiv? a b = .ok q ∧ FloorSteps a b t q := by
  obtain ⟨t, ht⟩ : ∃ t, truncDiv? a b = .ok t := by
    obtain ⟨t, -, ht⟩ := exists_exactly_of_inRange "division" ((inRange_tdiv_iff hb).2 hrange)
    exact ⟨t, ht⟩
  have hvalue := truncDiv?_eq_ok_iff.1 ht
  refine ⟨t, if roundedUp a b then t - 1 else t, ?_, hvalue, Int64.toInt_mod a b, ?_⟩
  · rw [floorDiv?, if_neg hb, ht]
    rfl
  · split
    · next hup => exact toInt_sub_one hvalue hb ((roundedUp_iff a b).1 hup).1
    · rfl

theorem isRest_of_pos {n r : Int} (hr : 0 ≤ r) (hlt : r < n) : IsRest n r := by
  constructor
  · rcases hr.eq_or_lt with rfl | hpos
    · exact .inl rfl
    · exact .inr (by rw [Int.sign_eq_one_of_pos hpos, Int.sign_eq_one_of_pos (hpos.trans hlt)])
  · rw [abs_of_nonneg hr, abs_of_nonneg (hr.trans hlt.le)]
    exact hlt

theorem isRest_of_neg {n r : Int} (hr : r ≤ 0) (hlt : n < r) : IsRest n r := by
  constructor
  · rcases hr.eq_or_lt with rfl | hneg
    · exact .inl rfl
    · right
      rw [Int.sign_eq_neg_one_of_neg hneg, Int.sign_eq_neg_one_of_neg (hlt.trans hneg)]
  · rw [abs_of_nonpos hr, abs_of_nonpos (hlt.le.trans hr)]
    omega

/-- What truncating division leaves over is smaller than the divisor, and has the sign of the
dividend. -/
theorem tmod_bounds {m n : Int} (hn : n ≠ 0) :
    (m.tmod n).natAbs < n.natAbs ∧ (0 ≤ m → 0 ≤ m.tmod n) ∧ (m < 0 → m.tmod n ≤ 0) := by
  refine ⟨?_, fun hm => Int.tmod_nonneg n hm, fun hm => ?_⟩
  · rw [Int.natAbs_tmod]
    exact Nat.mod_lt _ (Int.natAbs_pos.2 hn)
  · have hneg := Int.tmod_nonneg n (Int.neg_nonneg_of_nonpos hm.le)
    rw [Int.neg_tmod] at hneg
    omega

/-- What a division leaves over has the sign of the divisor. -/
theorem FloorSteps.exists_rest (h : FloorSteps a b t q) (hb : b ≠ 0) :
    ∃ rest, q.toInt * b.toInt + rest = a.toInt ∧ IsRest b.toInt rest := by
  have hb0 := toInt_ne_zero hb
  have hcut := Int.tmod_add_mul_tdiv a.toInt b.toInt
  obtain ⟨hlt, hnonneg, hnonpos⟩ := tmod_bounds (m := a.toInt) hb0
  have hdown := h.down
  rw [h.quotient] at hdown
  by_cases hup : roundedUp a b = true
  · -- The quotient was one too large, so the divisor is added to what remains.
    obtain ⟨hne, hsigns⟩ := (roundedUp_iff a b).1 hup
    rw [if_pos hup] at hdown
    refine ⟨a.toInt.tmod b.toInt + b.toInt, by rw [hdown]; linarith, ?_⟩
    rcases Int.lt_or_gt_of_ne hb0 with hneg | hpos
    · exact isRest_of_neg (by omega) (by omega)
    · exact isRest_of_pos (by omega) (by omega)
  · rw [if_neg hup] at hdown
    rw [roundedUp_iff] at hup
    refine ⟨a.toInt.tmod b.toInt, by rw [hdown]; linarith, ?_⟩
    rcases Int.lt_or_gt_of_ne hb0 with hneg | hpos
    · exact isRest_of_neg (by omega) (by omega)
    · exact isRest_of_pos (by omega) (by omega)

theorem IsRest.bounds_of_pos {n r : Int} (h : IsRest n r) (hn : 0 < n) : 0 ≤ r ∧ r < n := by
  obtain ⟨rfl | hsign, hlt⟩ := h
  · exact ⟨le_rfl, hn⟩
  · rw [Int.sign_eq_one_of_pos hn, Int.sign_eq_one_iff_pos] at hsign
    rw [abs_of_pos hsign, abs_of_pos hn] at hlt
    exact ⟨hsign.le, hlt⟩

theorem IsRest.bounds_of_neg {n r : Int} (h : IsRest n r) (hn : n < 0) : n < r ∧ r ≤ 0 := by
  obtain ⟨rfl | hsign, hlt⟩ := h
  · exact ⟨hn, le_rfl⟩
  · rw [Int.sign_eq_neg_one_of_neg hn, Int.sign_eq_neg_one_iff_neg] at hsign
    rw [abs_of_neg hsign, abs_of_neg hn] at hlt
    exact ⟨by omega, hsign.le⟩

/-- The quotient that leaves such a rest is the floor of the exact one. -/
theorem floor_eq_of_rest {m n quotient rest : Int} (hn : n ≠ 0) (hcut : quotient * n + rest = m)
    (hrest : IsRest n rest) : ⌊(m : ℚ) / n⌋ = quotient := by
  rw [Int.floor_eq_iff]
  rcases Int.lt_or_gt_of_ne hn with hneg | hpos
  · obtain ⟨hlow, hhigh⟩ := hrest.bounds_of_neg hneg
    have hn' : (n : ℚ) < 0 := by exact_mod_cast hneg
    rw [le_div_iff_of_neg hn', div_lt_iff_of_neg hn']
    exact ⟨by exact_mod_cast (by omega : m ≤ quotient * n),
      by exact_mod_cast (by rw [add_mul]; omega : (quotient + 1) * n < m)⟩
  · obtain ⟨hlow, hhigh⟩ := hrest.bounds_of_pos hpos
    have hn' : (0 : ℚ) < n := by exact_mod_cast hpos
    rw [le_div_iff₀ hn', div_lt_iff₀ hn']
    exact ⟨by exact_mod_cast (by omega : quotient * n ≤ m),
      by exact_mod_cast (by rw [add_mul]; omega : m < (quotient + 1) * n)⟩

/-! ### What is refused -/

theorem floorDiv?_eq_divisionByZero_iff : floorDiv? a b = .error .divisionByZero ↔ b = 0 := by
  constructor
  · intro h
    by_contra hb
    by_cases hrange : a = Int64.minValue ∧ b = -1
    · obtain ⟨rfl, rfl⟩ := hrange
      rw [floorDiv?, if_neg hb, truncDiv?_of_overflow] at h
      cases h
    · obtain ⟨t, q, hq, -⟩ := exists_floorSteps hb hrange
      rw [hq] at h
      cases h
  · rintro rfl
    rfl

theorem floorDiv?_eq_overflow_iff :
    floorDiv? a b = .error (.overflow "division") ↔ a = Int64.minValue ∧ b = -1 := by
  constructor
  · intro h
    by_contra hrange
    by_cases hb : b = 0
    · rw [floorDiv?, if_pos hb] at h
      cases h
    · obtain ⟨t, q, hq, -⟩ := exists_floorSteps hb hrange
      rw [hq] at h
      cases h
  · rintro ⟨rfl, rfl⟩
    rfl

end Word

namespace Primitive

/-- The operation gives the number with this value if the value is in range, and else refuses, by
the name of what overflows. It writes nothing. -/
def ExactOrRefused (p : Primitive) (operation : String) (a b : Word) (exact : Int) : Prop :=
  ∀ out,
    (Word.InRange exact → ∃ n : Word, n.toInt = exact ∧
      p.apply [.number a, .number b] out = (.ok (.number n), out)) ∧
    (¬ Word.InRange exact →
      p.apply [.number a, .number b] out = (.error (.overflow operation), out))

variable {p : Primitive} {name operation : String} {a b : Word}
  {op : Word → Word → Except Error Word}

theorem apply_arithmetic (harity : p.arity = 2)
    (hrun : ∀ args out, p.run args out = (arithmetic name op args, out)) (a b : Word) (out : Sink) :
    p.apply [.number a, .number b] out = ((op a b).map .number, out) := by
  have hcheck : p.checkArity [Value.number a, Value.number b].length = .ok () :=
    if_pos harity.symm
  have hnumbers : arithmetic name op [.number a, .number b] = (op a b).map .number := by
    cases hop : op a b with
    | error e => simp [arithmetic, twoNumbers, hop, bind, Except.bind, Except.map]
    | ok n => simp [arithmetic, twoNumbers, hop, bind, Except.bind, Except.map, pure, Except.pure]
  rw [apply, hcheck, hrun, hnumbers]

/-- An operation that takes its result from the exact one is exact or refuses. -/
theorem exactOrRefused_arithmetic {exact : Int} (harity : p.arity = 2)
    (hrun : ∀ args out, p.run args out = (arithmetic name op args, out))
    (hop : op a b = Word.exactly operation exact) : ExactOrRefused p operation a b exact := by
  intro out
  rw [apply_arithmetic harity hrun, hop]
  constructor
  · intro hrange
    obtain ⟨n, hn, heq⟩ := Word.exists_exactly_of_inRange operation hrange
    exact ⟨n, hn, by rw [heq]; rfl⟩
  · intro hrange
    rw [Word.exactly_of_not_inRange hrange]
    rfl

/-- Arithmetic is exact or refused, never wrapped. Sums, differences and products are the exact ones
or overflow. Division fails for the divisor 0, overflows for the least word and -1, and otherwise
gives the floor of the exact quotient, with none of its steps out of range; what it leaves over is
less than the divisor and has its sign. -/
theorem arithmetic_exact_or_refused (a b : Word) :
    ExactOrRefused .add "addition" a b (a.toInt + b.toInt) ∧
    ExactOrRefused .sub "subtraction" a b (a.toInt - b.toInt) ∧
    ExactOrRefused .mul "multiplication" a b (a.toInt * b.toInt) ∧
    (∀ out, div.apply [.number a, .number b] out = ((Word.floorDiv? a b).map .number, out)) ∧
    (Word.floorDiv? a b = .error .divisionByZero ↔ b = 0) ∧
    (Word.floorDiv? a b = .error (.overflow "division") ↔ a = Int64.minValue ∧ b = -1) ∧
    (b ≠ 0 → ¬ (a = Int64.minValue ∧ b = -1) →
      ∃ t q, Word.floorDiv? a b = .ok q ∧ Word.FloorSteps a b t q ∧
        q.toInt = ⌊(a.toInt : ℚ) / b.toInt⌋ ∧
        ∃ rest, q.toInt * b.toInt + rest = a.toInt ∧ Word.IsRest b.toInt rest) := by
  refine ⟨?_, ?_, ?_, ?_, Word.floorDiv?_eq_divisionByZero_iff, Word.floorDiv?_eq_overflow_iff, ?_⟩
  · exact exactOrRefused_arithmetic rfl (fun _ _ => rfl) rfl
  · exact exactOrRefused_arithmetic rfl (fun _ _ => rfl) rfl
  · exact exactOrRefused_arithmetic rfl (fun _ _ => rfl) rfl
  · exact apply_arithmetic rfl (fun _ _ => rfl) a b
  · intro hb hrange
    obtain ⟨t, q, hq, hsteps⟩ := Word.exists_floorSteps hb hrange
    obtain ⟨rest, hcut, hrest⟩ := hsteps.exists_rest hb
    refine ⟨t, q, hq, hsteps, ?_, rest, hcut, hrest⟩
    exact (Word.floor_eq_of_rest (Word.toInt_ne_zero hb) hcut hrest).symm

/-- Minus seven halves, rounded down. -/
theorem arithmetic_exact_below_zero :
    Word.floorDiv? (-7) 2 = .ok (-4) ∧ -4 = ⌊((-7 : Word).toInt : ℚ) / (2 : Word).toInt⌋ ∧
      ∃ rest, -4 * 2 + rest = -7 ∧ Word.IsRest 2 rest := by
  have hquotient : Word.floorDiv? (-7) 2 = .ok (-4) := rfl
  obtain ⟨-, -, -, -, -, -, hexact⟩ := arithmetic_exact_or_refused (-7) 2
  obtain ⟨t, q, hq, -, hfloor, rest, hcut, hrest⟩ := hexact (by decide) (by decide)
  rw [hquotient] at hq
  cases hq
  exact ⟨hquotient, hfloor, rest, hcut, hrest⟩

end Primitive

end PocketLisp
