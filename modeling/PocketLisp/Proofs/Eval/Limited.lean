import PocketLisp.Proofs.Eval.Inherited
import PocketLisp.Proofs.Eval.Invariant
import PocketLisp.Proofs.Eval.Output

/-!
# Evaluation with a limited sink

A sink that takes a limited number of bytes makes no difference until a text does not fit. There
evaluation ends, with the failure of the sink, and nothing is written after that.

## Main definitions

- `Sink.filled` — what a limited sink holds once some bytes were written to it
- `Outcome.Cut` — what a computation comes to with a limited sink, given what it comes to with one
  that never fails
- `Eval.Cuttable` — a computation writes behind what is there, and a limit cuts it short

## Main statements

- `Sink.write_filled` — a text that does not fit is cut, and its write fails
- `Eval.Cuttable.bind` — one cuttable computation after another is cuttable
- `eval_cuttable` — every evaluation is cuttable
-/

namespace PocketLisp

/-! ### Sinks -/

namespace Sink

/-- A sink that takes `limit` bytes in all, once `bytes` were written to it: it holds those that
fit. -/
def filled (limit : Nat) (bytes : ByteArray) : Sink :=
  ⟨bytes.extract 0 limit, some (limit - bytes.size), false⟩

variable {limit : Nat} {bytes more : ByteArray}

theorem filled_empty (limit : Nat) : filled limit .empty = limited limit := by
  have hnothing : ByteArray.extract .empty 0 limit = .empty :=
    ByteArray.extract_eq_empty_iff.2 (by simp)
  rw [filled, hnothing]
  rfl

theorem filled_append (limit : Nat) (bytes more : ByteArray) :
    filled limit (bytes ++ more) =
      ⟨bytes.extract 0 limit ++ more.extract 0 (limit - bytes.size),
        some (limit - (bytes.size + more.size)), false⟩ := by
  rw [filled, ByteArray.extract_append, Nat.zero_sub, ByteArray.size_append]

/-- What comes after the limit leaves no trace. -/
theorem filled_append_of_lt (h : limit < bytes.size) :
    filled limit (bytes ++ more) = filled limit bytes := by
  have hnothing : more.extract 0 (limit - bytes.size) = .empty :=
    ByteArray.extract_eq_empty_iff.2 (by omega)
  have hroom : limit - (bytes.size + more.size) = limit - bytes.size := by omega
  rw [filled_append, hnothing, ByteArray.append_empty, hroom, filled]

/-- A text is written as far as it fits, and the write fails when something is left over. -/
theorem write_filled (limit : Nat) (bytes : ByteArray) (text : String) :
    (filled limit bytes).write text =
      (if text.toUTF8.size ≤ limit - bytes.size then .ok () else .error .sinkClosed,
        filled limit (bytes ++ text.toUTF8)) := by
  rw [filled_append]
  unfold write filled
  dsimp only
  split
  · next hfits =>
    have hwhole : text.toUTF8.extract 0 (limit - bytes.size) = text.toUTF8 := by
      rw [← Nat.max_eq_left hfits, ByteArray.extract_zero_max_size]
    rw [hwhole, Nat.sub_add_eq]
  · next hcut =>
    have hroom : limit - (bytes.size + text.toUTF8.size) = 0 := by omega
    rw [hroom]

theorem deliver_filled (limit : Nat) (bytes : ByteArray) (text : String) :
    (filled limit bytes).deliver text =
      (if text.toUTF8.size ≤ limit - bytes.size then .ok () else .error .sinkClosed,
        filled limit (bytes ++ text.toUTF8)) := by
  rw [deliver, write_filled]
  split
  · next heq =>
    obtain ⟨hr, rfl⟩ := Prod.mk.inj heq
    rw [hr]
    rfl
  · next heq =>
    obtain ⟨hr, rfl⟩ := Prod.mk.inj heq
    rw [hr]

end Sink

/-! ### Computations -/

variable {α β : Type} {limit : Nat}

/-- What is left of an ending that leaves `m`, with a sink that takes `limit` bytes: the same
ending, if all that was written fits; else the failure of the sink, which holds what fits. -/
def Outcome.CutAt (limit : Nat) (m : Machine) (ending : Machine → Outcome α) (o : Outcome α) :
    Prop :=
  if m.out.written.size ≤ limit then o = ending { m with out := .filled limit m.out.written }
  else ∃ store, o = .error (.output "sink closed") ⟨store, .filled limit m.out.written⟩

theorem Outcome.cutAt_of_le {m : Machine} {ending : Machine → Outcome α} {o : Outcome α}
    (h : m.out.written.size ≤ limit) :
    CutAt limit m ending o ↔ o = ending { m with out := .filled limit m.out.written } := by
  rw [CutAt, if_pos h]

theorem Outcome.cutAt_of_lt {m : Machine} {ending : Machine → Outcome α} {o : Outcome α}
    (h : limit < m.out.written.size) :
    CutAt limit m ending o ↔
      ∃ store, o = .error (.output "sink closed") ⟨store, .filled limit m.out.written⟩ := by
  rw [CutAt, if_neg (Nat.not_le_of_lt h)]

/-- What a computation comes to with a sink that takes `limit` bytes, given what it comes to with
one that never fails. Where the latter does not end within its fuel, nothing is said. -/
def Outcome.Cut (limit : Nat) : Outcome α → Outcome α → Prop
  | .value a m, o => CutAt limit m (.value a) o
  | .error e m, o => CutAt limit m (.error e) o
  | .outOfFuel, _ => True

/-- The sink of the machine never fails, and holds what there was `before`, and more. -/
def Machine.Holds (before : ByteArray) (m : Machine) : Prop :=
  ∃ more, m.out = .holding (before ++ more)

theorem Machine.holds_refl (store : Store) (bytes : ByteArray) :
    Machine.Holds bytes ⟨store, .holding bytes⟩ :=
  ⟨.empty, by rw [ByteArray.append_empty]⟩

theorem Machine.Holds.trans {before more : ByteArray} {m : Machine}
    (h : m.Holds (before ++ more)) : m.Holds before := by
  obtain ⟨rest, hrest⟩ := h
  exact ⟨more ++ rest, by rw [hrest, ByteArray.append_assoc]⟩

namespace Eval

/-- Whatever the sink holds, the computation writes behind it; and a limit that is not reached yet
cuts the computation short. -/
def Cuttable (x : Eval α) : Prop :=
  ∀ store before,
    x.Ends ⟨store, .holding before⟩ (fun _ => Machine.Holds before)
      (fun _ => Machine.Holds before) ∧
    ∀ limit, before.size ≤ limit →
      Outcome.Cut limit (x ⟨store, .holding before⟩) (x ⟨store, .filled limit before⟩)

variable {x : Eval α} {f : α → Eval β}

/-- A computation that succeeds without a look at the sink. -/
theorem cuttable_of_value
    (h : ∀ store, ∃ a store', ∀ out, x ⟨store, out⟩ = .value a ⟨store', out⟩) : x.Cuttable := by
  intro store before
  obtain ⟨a, store', hx⟩ := h store
  constructor
  · rw [Ends, hx]
    exact Machine.holds_refl store' before
  · intro limit hfits
    rw [hx, hx]
    exact (Outcome.cutAt_of_le hfits).2 rfl

theorem cuttable_fail (e : Error) : (fail e : Eval α).Cuttable := by
  intro store before
  constructor
  · exact Machine.holds_refl store before
  · intro limit hfits
    exact (Outcome.cutAt_of_le hfits).2 rfl

theorem cuttable_outOfFuel : (outOfFuel : Eval α).Cuttable := fun _ _ =>
  ⟨trivial, fun _ _ => trivial⟩

theorem cuttable_primitive (p : Primitive) (args : List Value) : (primitive p args).Cuttable := by
  rcases p.apply_cases args with ⟨r, hr⟩ | ⟨v, text, hwrites⟩
  · have hofExcept : primitive p args = ofExcept r := by
      funext m
      rw [primitive, hr]
      cases r <;> rfl
    rw [hofExcept]
    cases r with
    | ok v => exact cuttable_of_value fun store => ⟨v, store, fun _ => rfl⟩
    | error e => exact cuttable_fail e
  · intro store before
    have hunlimited : primitive p args ⟨store, .holding before⟩ =
        .value v ⟨store, .holding (before ++ text.toUTF8)⟩ := by
      rw [primitive, hwrites, Sink.write_holding]
    refine ⟨?_, fun limit hfits => ?_⟩
    · rw [Ends, hunlimited]
      exact ⟨text.toUTF8, rfl⟩
    · rw [hunlimited, primitive, hwrites, Sink.write_filled]
      by_cases hroom : text.toUTF8.size ≤ limit - before.size
      · have hsize : (before ++ text.toUTF8).size ≤ limit := by
          rw [ByteArray.size_append]
          omega
        rw [if_pos hroom]
        exact (Outcome.cutAt_of_le hsize).2 rfl
      · have hsize : limit < (before ++ text.toUTF8).size := by
          rw [ByteArray.size_append]
          omega
        rw [if_neg hroom]
        exact (Outcome.cutAt_of_lt hsize).2 ⟨store, rfl⟩

/-- What comes after the limit does not change how the limit cut the computation short. -/
theorem cut_of_lt {store store' : Store} {bytes : ByteArray} (hlimit : limit < bytes.size)
    (h : x.Ends ⟨store, .holding bytes⟩ (fun _ => Machine.Holds bytes)
      (fun _ => Machine.Holds bytes)) :
    Outcome.Cut limit (x ⟨store, .holding bytes⟩)
      (.error (.output "sink closed") ⟨store', .filled limit bytes⟩) := by
  have hcut : ∀ (m : Machine) (ending : Machine → Outcome α), m.Holds bytes →
      Outcome.CutAt limit m ending
        (.error (.output "sink closed") ⟨store', .filled limit bytes⟩) := by
    rintro ⟨_, _⟩ ending ⟨more, rfl⟩
    have hsize : limit < (bytes ++ more).size := by
      rw [ByteArray.size_append]
      omega
    rw [← Sink.filled_append_of_lt hlimit]
    exact (Outcome.cutAt_of_lt hsize).2 ⟨store', rfl⟩
  unfold Ends at h
  cases hx : x ⟨store, .holding bytes⟩ with
  | value a m => rw [hx] at h; exact hcut m _ h
  | error e m => rw [hx] at h; exact hcut m _ h
  | outOfFuel => trivial

/-- One computation after another is cut short as soon as one of them is. -/
theorem Cuttable.bind (hx : x.Cuttable) (hf : ∀ a, (f a).Cuttable) : (x >>= f).Cuttable := by
  intro store before
  obtain ⟨hends, hcut⟩ := hx store before
  constructor
  · refine hends.bind fun a m ⟨more, hm⟩ => ?_
    obtain ⟨store₁, _⟩ := m
    cases hm
    exact (hf a store₁ (before ++ more)).1.imp (fun _ _ h => h.trans) fun _ _ h => h.trans
  · intro limit hfits
    have hcut := hcut limit hfits
    unfold Ends at hends
    rw [bind_apply, bind_apply]
    cases hunlimited : x ⟨store, .holding before⟩ with
    | value a m =>
      rw [hunlimited] at hends hcut
      obtain ⟨more, hm⟩ := hends
      obtain ⟨store₁, _⟩ := m
      cases hm
      obtain ⟨hends₁, hcut₁⟩ := hf a store₁ (before ++ more)
      rcases Nat.lt_or_ge limit (before ++ more).size with hlimit | hfits₁
      · obtain ⟨store', hlimited⟩ := (Outcome.cutAt_of_lt hlimit).1 hcut
        rw [hlimited]
        exact cut_of_lt hlimit hends₁
      · rw [(Outcome.cutAt_of_le hfits₁).1 hcut]
        exact hcut₁ limit hfits₁
    | error e m =>
      rw [hunlimited] at hcut
      rcases Nat.lt_or_ge limit m.out.written.size with hlimit | hfits₁
      · obtain ⟨store', hlimited⟩ := (Outcome.cutAt_of_lt hlimit).1 hcut
        rw [hlimited]
        exact (Outcome.cutAt_of_lt hlimit).2 ⟨store', rfl⟩
      · rw [(Outcome.cutAt_of_le hfits₁).1 hcut]
        exact (Outcome.cutAt_of_le hfits₁).2 rfl
    | outOfFuel => trivial

end Eval

/-- Cuttable computations put together are cuttable. -/
def cuttable : Inherited where
  holds := Eval.Cuttable
  pure a := Eval.cuttable_of_value fun store => ⟨a, store, fun _ => rfl⟩
  fail := Eval.cuttable_fail
  outOfFuel := Eval.cuttable_outOfFuel
  bind := Eval.Cuttable.bind
  lookup scope name := Eval.cuttable_of_value fun store =>
    ⟨(store.lookup scope name).1, (store.lookup scope name).2, fun _ => rfl⟩
  assign scope name v := Eval.cuttable_of_value fun store =>
    ⟨(), store.assign scope name v, fun _ => rfl⟩
  newClosure formals body scope := Eval.cuttable_of_value fun store =>
    ⟨.closure store.closures.size, (store.newClosure formals body scope).2, fun _ => rfl⟩
  newFrame b scope := Eval.cuttable_of_value fun store =>
    ⟨(store.newFrame b (some scope)).1, (store.newFrame b (some scope)).2, fun _ => rfl⟩
  closure? id := Eval.cuttable_of_value fun store => ⟨store.closures[id]?, store, fun _ => rfl⟩
  primitive := Eval.cuttable_primitive

/-- Evaluation writes behind what a sink holds, and a limit cuts it short. -/
theorem eval_cuttable (fuel : Nat) (scope : FrameId) (e : Expr) : (eval fuel scope e).Cuttable :=
  cuttable.holds_eval fuel scope e

end PocketLisp
