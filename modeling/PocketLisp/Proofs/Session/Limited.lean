import PocketLisp.Proofs.Eval.Limited
import PocketLisp.Proofs.Session.Drivers

/-!
# Conversations with a limited sink

A limited sink cuts what a conversation writes, and changes nothing else: up to the limit the
conversation goes on as it would without one, and there it ends with the failure of the sink.

## Main definitions

- `Conversation.Cut` — what a conversation comes to with a limited sink, given what it comes to
  with one that never fails

## Main statements

- `Session.evalForm_filled` — a form with a limited sink
- `Conversation.run_cut` — a conversation with a limited sink
- `limited_sink_cuts` — a limit cuts the output of evaluations and of conversations over a text
-/

namespace PocketLisp

variable {fuel limit : Nat} {stream : TokenStream} {forms : List Form} {ts : List Token}
  {s s' : Session} {before : ByteArray} {out prompts : Sink} {r : FormResult}

namespace Session

/-- What a form comes to, by what its expression comes to with a limited sink. -/
theorem settle_of_cutAt {line : Nat} {global : FrameId} {m : Machine} {o : Outcome Value}
    {ending : Machine → Outcome Value} {r : FormResult}
    (hsettle : ∀ m, settle line global (ending m) = some (r, ⟨m.store, global⟩, m.out))
    (hcut : Outcome.CutAt limit m ending o) :
    ∃ r' s'', settle line global o = some (r', s'', .filled limit m.out.written) ∧
      (m.out.written.size ≤ limit → r' = r ∧ s'' = ⟨m.store, global⟩) := by
  rcases Nat.lt_or_ge limit m.out.written.size with hlimit | hroom
  · obtain ⟨store, hlimited⟩ := (Outcome.cutAt_of_lt hlimit).1 hcut
    rw [hlimited]
    exact ⟨_, _, rfl, fun hroom => absurd hroom (Nat.not_le_of_lt hlimit)⟩
  · rw [(Outcome.cutAt_of_le hroom).1 hcut, hsettle]
    exact ⟨_, _, rfl, fun _ => ⟨rfl, rfl⟩⟩

theorem settle_of_cut {line : Nat} {global : FrameId} {o o' : Outcome Value}
    (h : settle line global o = some (r, s', out)) (hcut : Outcome.Cut limit o o') :
    ∃ r' s'', settle line global o' = some (r', s'', .filled limit out.written) ∧
      (out.written.size ≤ limit → r' = r ∧ s'' = s') := by
  cases o with
  | value v m =>
    cases h
    exact settle_of_cutAt (fun _ => rfl) hcut
  | error err m =>
    cases h
    exact settle_of_cutAt (fun _ => rfl) hcut
  | outOfFuel => cases h

/-- A form writes behind what the sink holds when its expression does. -/
theorem exists_holding_of_settle {line : Nat} {global : FrameId} {x : Eval Value} {m : Machine}
    (hends : x.Ends m (fun _ => Machine.Holds before) (fun _ => Machine.Holds before))
    (h : settle line global (x m) = some (r, s', out)) :
    ∃ more, out = .holding (before ++ more) := by
  unfold Eval.Ends at hends
  cases hx : x m with
  | value v m' =>
    rw [hx] at h hends
    cases h
    exact hends
  | error err m' =>
    rw [hx] at h hends
    cases h
    exact hends
  | outOfFuel =>
    rw [hx] at h
    cases h

/-- A form with a limited sink has the same result and leaves the same session if what it writes
fits, and in any case the sink holds what fits. -/
theorem evalForm_filled (hfits : before.size ≤ limit)
    (h : s.evalForm fuel ts (.holding before) = some (r, s', out)) :
    ∃ more r' s'', out = .holding (before ++ more) ∧
      s.evalForm fuel ts (.filled limit before) =
        some (r', s'', .filled limit (before ++ more)) ∧
      ((before ++ more).size ≤ limit → r' = r ∧ s'' = s') := by
  cases hparse : parse (ts.map Token.lexeme) with
  | error err =>
    rw [evalForm_of_parse_error hparse] at h
    cases h
    refine ⟨.empty, _, s, ?_, ?_, fun _ => ⟨rfl, rfl⟩⟩
    · rw [ByteArray.append_empty]
    · rw [evalForm_of_parse_error hparse, ByteArray.append_empty]
  | ok e =>
    rw [evalForm_of_parse hparse] at h ⊢
    obtain ⟨hends, hcut⟩ := eval_cuttable fuel (s.store.newFrame [] (some s.global)).1 e
      (s.store.newFrame [] (some s.global)).2 before
    obtain ⟨more, rfl⟩ := exists_holding_of_settle hends h
    obtain ⟨r', s'', hlimited⟩ := settle_of_cut h (hcut limit hfits)
    exact ⟨more, r', s'', rfl, hlimited⟩

end Session

/-! ### Conversations -/

namespace Conversation

/-- What is left of a conversation that ends as `answer` says and leaves `c`, with a sink that takes
`limit` bytes: the same, if all that was written fits; else the failure of the sink, which holds
what fits. -/
def CutAt (limit : Nat) (answer : Except Failure Ending) (c : Conversation)
    (o : Option (Except Failure Ending × Conversation)) : Prop :=
  if c.console.out.written.size ≤ limit then
    o = some (answer, { c with
      console := { c.console with out := .filled limit c.console.out.written } })
  else ∃ c', o = some (.error .sinkClosed, c') ∧
    c'.console.out = .filled limit c.console.out.written

/-- What a conversation comes to with a sink that takes `limit` bytes, given what it comes to with
one that never fails. Where the latter does not end within its fuel, nothing is said. -/
def Cut (limit : Nat) : Option (Except Failure Ending × Conversation) →
    Option (Except Failure Ending × Conversation) → Prop
  | some (answer, c), o => CutAt limit answer c o
  | none, _ => True

variable {answer : Except Failure Ending} {c : Conversation}
  {o : Option (Except Failure Ending × Conversation)}

theorem cutAt_of_le (h : c.console.out.written.size ≤ limit) :
    CutAt limit answer c o ↔ o = some (answer, { c with
      console := { c.console with out := .filled limit c.console.out.written } }) := by
  rw [CutAt, if_pos h]

theorem cutAt_of_lt (h : limit < c.console.out.written.size) :
    CutAt limit answer c o ↔ ∃ c', o = some (.error .sinkClosed, c') ∧
      c'.console.out = .filled limit c.console.out.written := by
  rw [CutAt, if_neg (Nat.not_le_of_lt h)]

theorem size_line_pos (r : FormResult) : 0 < (r.text ++ "\n").toUTF8.size := by
  rw [String.toUTF8, String.toByteArray_append, ByteArray.size_append]
  exact Nat.lt_add_left _ (by decide)

/-- A conversation writes behind what the sink holds. -/
theorem exists_written (h : stream.HandsForms forms)
    (hrun : run fuel ⟨stream, s, ⟨.holding before, prompts⟩⟩ = some (answer, c)) :
    ∃ more, c.console.out = .holding (before ++ more) := by
  obtain ⟨left, heq⟩ := run_of_handsForms h s before prompts
  rw [heq] at hrun
  obtain ⟨⟨answers, s'⟩, -, hc⟩ := Option.map_eq_some_iff.1 hrun
  cases hc
  exact ⟨transcript answers, rfl⟩

/-- Once a limited sink is full, the failure of the next write is how the conversation is cut. -/
theorem cutAt_of_full {bytes : ByteArray} {c' : Conversation} (h : stream.HandsForms forms)
    (hrun : run fuel ⟨stream, s, ⟨.holding bytes, prompts⟩⟩ = some (answer, c))
    (hlimit : limit < bytes.size) (hc' : c'.console.out = .filled limit bytes) :
    CutAt limit answer c (some (.error .sinkClosed, c')) := by
  obtain ⟨more, hmore⟩ := exists_written h hrun
  have hsize : limit < c.console.out.written.size := by
    rw [hmore]
    exact Nat.lt_of_lt_of_le hlimit (by rw [Sink.holding, ByteArray.size_append]; omega)
  refine (cutAt_of_lt hsize).2 ⟨c', rfl, ?_⟩
  rw [hc', hmore]
  exact (Sink.filled_append_of_lt hlimit).symm

/-- With a limited sink, a conversation over these forms is cut at the limit. -/
theorem run_filled (h : stream.HandsForms forms) (hfits : before.size ≤ limit)
    (hrun : run fuel ⟨stream, s, ⟨.holding before, prompts⟩⟩ = some (answer, c)) :
    CutAt limit answer c (run fuel ⟨stream, s, ⟨.filled limit before, prompts⟩⟩) := by
  induction h generalizing s before with
  | done hread =>
    rw [run_of_none (hread _)] at hrun ⊢
    cases hrun
    exact (cutAt_of_le hfits).2 rfl
  | @form stream stream' form forms hread hforms ih =>
    cases form with
    | quit =>
      rw [run_of_quit (hread _)] at hrun ⊢
      cases hrun
      exact (cutAt_of_le hfits).2 rfl
    | tokens ts =>
      rw [run_of_form (hread _)] at hrun ⊢
      obtain ⟨⟨r, s₁, out⟩, hform, hrest⟩ := Option.bind_eq_some_iff.1 hrun
      obtain ⟨more, r', s₂, rfl, hlimited, hsame⟩ := Session.evalForm_filled hfits hform
      rw [hlimited, Option.bind_some]
      dsimp only at hrest ⊢
      rw [Sink.deliver_holding] at hrest
      rw [Sink.deliver_filled]
      dsimp only at hrest
      rcases Nat.lt_or_ge limit (before ++ more).size with hlimit | hroom
      · -- The form itself was cut, so its result cannot be written either.
        have hline : ¬ (r'.text ++ "\n").toUTF8.size ≤ limit - (before ++ more).size := by
          have := size_line_pos r'
          omega
        have hfull : limit < (before ++ more ++ (r.text ++ "\n").toUTF8).size := by
          rw [ByteArray.size_append]
          omega
        rw [if_neg hline]
        refine cutAt_of_full hforms hrest hfull ?_
        dsimp only
        rw [Sink.filled_append_of_lt hlimit, Sink.filled_append_of_lt hlimit]
      · obtain ⟨rfl, rfl⟩ := hsame hroom
        by_cases hline : (r'.text ++ "\n").toUTF8.size ≤ limit - (before ++ more).size
        · rw [if_pos hline]
          refine ih ?_ hrest
          rw [ByteArray.size_append]
          omega
        · rw [if_neg hline]
          refine cutAt_of_full hforms hrest ?_ rfl
          rw [ByteArray.size_append]
          omega

/-- A limit cuts a conversation over forms, also when there is something in the sink already. -/
theorem run_cut (h : stream.HandsForms forms) (hfits : before.size ≤ limit) :
    Cut limit (run fuel ⟨stream, s, ⟨.holding before, prompts⟩⟩)
      (run fuel ⟨stream, s, ⟨.filled limit before, prompts⟩⟩) := by
  cases hrun : run fuel ⟨stream, s, ⟨.holding before, prompts⟩⟩ with
  | none => trivial
  | some ended => exact run_filled h hfits hrun

end Conversation

/-! ### Evaluations and conversations -/

/-- A sink that takes `limit` bytes cuts the output and changes nothing else. An evaluation, and a
conversation over a text, that ends with a sink that never fails also ends with this one. If all
that was written fits, it ends the same way, with the same output; else it ends with the failure of
the sink, which holds the first `limit` bytes of it. -/
theorem limited_sink_cuts (fuel limit : Nat) :
    (∀ scope e store, Outcome.Cut limit (eval fuel scope e ⟨store, .unlimited⟩)
      (eval fuel scope e ⟨store, .limited limit⟩)) ∧
    ∀ text s prompts,
      let stream := TokenStream.ofSource (.ofString text .silent)
      Conversation.Cut limit (Conversation.run fuel ⟨stream, s, ⟨.unlimited, prompts⟩⟩)
        (Conversation.run fuel ⟨stream, s, ⟨.limited limit, prompts⟩⟩) := by
  rw [← Sink.filled_empty]
  constructor
  · intro scope e store
    exact (eval_cuttable fuel scope e store .empty).2 limit (Nat.zero_le _)
  · intro text s prompts stream
    exact Conversation.run_cut (handsForms_ofString text) (Nat.zero_le _)

end PocketLisp
