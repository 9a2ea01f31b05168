import PocketLisp.Proofs.Input.Prompts

/-!
# Prompts and reads apart

A call that needs a line first shows a prompt. If the prompt is refused, nothing is taken and the
stream stays as it was; otherwise the call does what it does on a stream without prompts.

## Main definitions

- `TokenStream.withPrompting` — the stream with its prompts shown elsewhere
- `TokenStream.quiet` — the stream without prompts
- `TokenStream.Asks` — the next call needs a line, and so shows a prompt

## Main statements

- `TokenStream.next_of_refused` — a refused prompt leaves the stream as it was
- `TokenStream.next_of_shown`, `TokenStream.next_of_not_asks` — all other calls are those of the
  stream without prompts
-/

namespace PocketLisp

/-- After a prompt that is shown, a line is read as it is without prompts. -/
theorem LineSource.read_of_shown {source : LineSource} {prompt : String} {c c' : Console}
    (h : source.prompting.ask prompt c = (.ok (), c')) (d : Console) :
    source.read prompt c =
      (({ source with prompting := .silent }.read prompt d).1,
        { ({ source with prompting := .silent }.read prompt d).2.1 with
          prompting := source.prompting }, c') := by
  obtain ⟨reads, p⟩ := source
  dsimp only at h
  rw [LineSource.read, LineSource.read, h]
  rcases reads with - | ⟨⟨text⟩ | ⟨f⟩, reads⟩
  · rfl
  · rfl
  · rfl

/-- Whether a console refuses prompts. They all are of the same size. -/
def Prompting.refuses (p : Prompting) (c : Console) : Bool :=
  match (p.ask "--> " c).1 with
  | .ok _ => false
  | .error _ => true

namespace TokenStream

/-- The stream with its prompts shown elsewhere. -/
def withPrompting (s : TokenStream) (p : Prompting) : TokenStream :=
  { s with source := { s.source with prompting := p } }

/-- The stream without prompts. -/
def quiet (s : TokenStream) : TokenStream := s.withPrompting .silent

/-- The next call needs a line. -/
def Asks (s : TokenStream) : Prop := s.rest = [] ∧ s.exhausted = false

variable {s : TokenStream} {c c' : Console} {f : Failure}

@[simp]
theorem quiet_withPrompting (s : TokenStream) (p : Prompting) :
    (s.withPrompting p).quiet = s.quiet := rfl

theorem quiet_of_silent (h : s.source.prompting = .silent) : s.quiet = s := by
  rw [quiet, ← h]
  rfl

/-- Where prompts are shown is nothing to a line in hand. -/
theorem cut_withPrompting (s : TokenStream) (p : Prompting) :
    (s.withPrompting p).cut = (s.cut.1, s.cut.2.withPrompting p) := by
  unfold cut
  dsimp only [withPrompting]
  cases Lexeme.scan? (splitGap s.rest).2 with
  | none => rfl
  | some lr => rfl

/-- A refused prompt leaves the stream as it was. -/
theorem next_of_refused (h : s.Asks)
    (hask : s.source.prompting.ask s.prompt c = (.error f, c')) :
    s.next c = (.error f, s, c') := by
  obtain ⟨hrest, hexhausted⟩ := h
  have hread : s.source.read s.prompt c = (.error f, s.source, c') := by
    rw [LineSource.read, hask]
  have hrefill : s.refill c = (.error f, s, c') := by
    rw [refill, if_neg (by simp [hexhausted]), hread]
  rw [next, if_pos (by simp [hrest]), hrefill]

theorem refill_of_shown (hexhausted : s.exhausted = false)
    (hask : s.source.prompting.ask s.prompt c = (.ok (), c')) (d : Console) :
    s.refill c =
      ((s.quiet.refill d).1, (s.quiet.refill d).2.1.withPrompting s.source.prompting, c') := by
  have hread : s.source.read s.prompt c = ((s.quiet.source.read s.quiet.prompt d).1,
      { (s.quiet.source.read s.quiet.prompt d).2.1 with prompting := s.source.prompting }, c') :=
    LineSource.read_of_shown hask d
  have hquiet : ¬ s.quiet.exhausted = true := by simp [quiet, withPrompting, hexhausted]
  rw [refill, refill, if_neg (by simp [hexhausted]), if_neg hquiet, hread]
  rcases s.quiet.source.read s.quiet.prompt d with ⟨f | text, source, d'⟩
  · rfl
  · rfl

/-- After a prompt that is shown, a call does what it does without prompts. -/
theorem next_of_shown (h : s.Asks) (hask : s.source.prompting.ask s.prompt c = (.ok (), c'))
    (d : Console) :
    s.next c =
      ((s.quiet.next d).1, (s.quiet.next d).2.1.withPrompting s.source.prompting, c') := by
  obtain ⟨hrest, hexhausted⟩ := h
  have hquiet : s.quiet.rest = [] := hrest
  rw [next, next, if_pos (by simp [hrest]), if_pos (by simp [hquiet]),
    refill_of_shown hexhausted hask d]
  rcases s.quiet.refill d with ⟨f | b, s₁, d'⟩
  · rfl
  · cases b with
    | false => rfl
    | true =>
      dsimp only
      rw [cut_withPrompting]

/-- A call that needs no line does what it does without prompts. -/
theorem next_of_not_asks (h : ¬ s.Asks) (d : Console) :
    s.next c = ((s.quiet.next d).1, (s.quiet.next d).2.1.withPrompting s.source.prompting, c) := by
  by_cases hrest : s.rest = []
  · have hexhausted : s.exhausted = true := by simpa [Asks, hrest] using h
    have hquiet : s.quiet.rest = [] := hrest
    have hexhausted' : s.quiet.exhausted = true := hexhausted
    rw [next, next, if_pos (by simp [hrest]), if_pos (by simp [hquiet]), refill, refill,
      if_pos hexhausted, if_pos hexhausted']
    rfl
  · have hquiet : ¬ s.quiet.rest = [] := hrest
    have hself : s.cut.2.withPrompting s.source.prompting = s.cut.2 :=
      (congrArg Prod.snd (cut_withPrompting s s.source.prompting)).symm
    rw [next, next, if_neg (by simp [hrest]), if_neg (by simp [hquiet]), quiet, cut_withPrompting]
    exact congrArg (fun s' => (s.cut.1.map some, s', c)) hself.symm

theorem refuses_iff : s.source.prompting.refuses c = true ↔
    ∃ f, (s.source.prompting.ask s.prompt c).1 = .error f := by
  have hsize : "--> ".toUTF8.size = s.prompt.toUTF8.size := by rw [size_prompt]; decide
  rw [Prompting.refuses, (Prompting.ask_alike _ (.refl c) hsize).1]
  cases (s.source.prompting.ask s.prompt c).1 with
  | ok _ => simp
  | error f => simp

/-- A call whose prompt is refused leaves the stream as it was. Every other call is that of the
stream without prompts. -/
theorem next_cases_prompted (s : TokenStream) (c d : Console) :
    (s.source.prompting.refuses c = true ∧ ∃ f c', s.next c = (.error f, s, c')) ∨
      ∃ c', s.next c =
        ((s.quiet.next d).1, (s.quiet.next d).2.1.withPrompting s.source.prompting, c') := by
  by_cases h : s.Asks
  · rcases hask : s.source.prompting.ask s.prompt c with ⟨f | _, c'⟩
    · exact .inl ⟨refuses_iff.2 ⟨f, by rw [hask]⟩, f, c', next_of_refused h hask⟩
    · exact .inr ⟨c', next_of_shown h hask d⟩
  · exact .inr ⟨c, next_of_not_asks h d⟩

end TokenStream

end PocketLisp
