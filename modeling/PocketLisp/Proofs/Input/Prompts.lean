import PocketLisp.Input.TokenStream

/-!
# Prompts do not change what is read

Which prompt a stream shows depends on the form that is being read. Both prompts are of the same
size, so a sink takes the one exactly when it takes the other, and what is read is the same.

## Main definitions

- `Sink.Alike`, `Console.Alike` — sinks that take and refuse the same texts
- `TokenStream.Alike` — streams that differ at most in the prompt of the next read
- `TokenStream.nexts` — several tokens, one after another

## Main statements

- `TokenStream.Alike.next` — alike streams hand out the same token and stay alike
- `TokenStream.Alike.nexts` — and so for any number of tokens
-/

namespace PocketLisp

/-- Two sinks that have the same room left and pass on what they hold in the same way. -/
def Sink.Alike (a b : Sink) : Prop := a.room = b.room ∧ a.flushFails = b.flushFails

namespace Sink

variable {a b d : Sink} {t u : String}

theorem Alike.refl (a : Sink) : a.Alike a := ⟨rfl, rfl⟩

theorem Alike.trans (h : a.Alike b) (h' : b.Alike d) : a.Alike d :=
  ⟨h.1.trans h'.1, h.2.trans h'.2⟩

theorem Alike.write (h : a.Alike b) (hsize : t.toUTF8.size = u.toUTF8.size) :
    (a.write t).1 = (b.write u).1 ∧ (a.write t).2.Alike (b.write u).2 := by
  obtain ⟨hroom, hflush⟩ := h
  unfold Sink.write
  dsimp only
  rw [hroom, hsize]
  cases b.room with
  | none => exact ⟨rfl, rfl, hflush⟩
  | some room =>
    dsimp only
    by_cases hfits : u.toUTF8.size ≤ room
    · rw [if_pos hfits, if_pos hfits]
      exact ⟨rfl, rfl, hflush⟩
    · rw [if_neg hfits, if_neg hfits]
      exact ⟨rfl, rfl, hflush⟩

theorem Alike.deliver (h : a.Alike b) (hsize : t.toUTF8.size = u.toUTF8.size) :
    (a.deliver t).1 = (b.deliver u).1 ∧ (a.deliver t).2.Alike (b.deliver u).2 := by
  obtain ⟨hresult, halike⟩ := h.write hsize
  unfold Sink.deliver
  rcases ha : a.write t with ⟨r, a'⟩
  rcases hb : b.write u with ⟨r', b'⟩
  rw [ha, hb] at hresult halike
  cases hresult
  cases r with
  | ok _ =>
    refine ⟨?_, halike⟩
    show a'.flush = b'.flush
    rw [Sink.flush, Sink.flush, halike.2]
  | error f => exact ⟨rfl, halike⟩

end Sink

/-- Two consoles of which both sinks are alike. -/
def Console.Alike (c c' : Console) : Prop := c.out.Alike c'.out ∧ c.prompts.Alike c'.prompts

namespace Console

variable {c c' c'' : Console}

theorem Alike.refl (c : Console) : c.Alike c := ⟨.refl _, .refl _⟩

theorem Alike.trans (h : c.Alike c') (h' : c'.Alike c'') : c.Alike c'' :=
  ⟨h.1.trans h'.1, h.2.trans h'.2⟩

end Console

section

variable {c c' : Console} {t u : String}

theorem Prompting.ask_alike (p : Prompting) (h : c.Alike c')
    (hsize : t.toUTF8.size = u.toUTF8.size) :
    (p.ask t c).1 = (p.ask u c').1 ∧ (p.ask t c).2.Alike (p.ask u c').2 := by
  obtain ⟨hout, hprompts⟩ := h
  cases p with
  | silent => exact ⟨rfl, hout, hprompts⟩
  | written =>
    obtain ⟨hresult, halike⟩ := hprompts.write hsize
    exact ⟨hresult, hout, halike⟩
  | flushed =>
    obtain ⟨hresult, halike⟩ := hprompts.deliver hsize
    exact ⟨hresult, hout, halike⟩
  | onOutput =>
    obtain ⟨hresult, halike⟩ := hout.deliver hsize
    exact ⟨hresult, halike, hprompts⟩

theorem LineSource.read_alike (s : LineSource) (h : c.Alike c')
    (hsize : t.toUTF8.size = u.toUTF8.size) :
    (s.read t c).1 = (s.read u c').1 ∧ (s.read t c).2.1 = (s.read u c').2.1 ∧
      (s.read t c).2.2.Alike (s.read u c').2.2 := by
  obtain ⟨hresult, halike⟩ := s.prompting.ask_alike h hsize
  unfold LineSource.read
  rcases hask : s.prompting.ask t c with ⟨r, d⟩
  rcases hask' : s.prompting.ask u c' with ⟨r', d'⟩
  rw [hask, hask'] at hresult halike
  cases hresult
  cases r with
  | error f => exact ⟨rfl, rfl, halike⟩
  | ok _ =>
    rcases s.reads with - | ⟨⟨text⟩ | ⟨f⟩, reads⟩
    · exact ⟨rfl, rfl, halike⟩
    · exact ⟨rfl, rfl, halike⟩
    · exact ⟨rfl, rfl, halike⟩

end

namespace TokenStream

/-- Two streams that differ at most in the prompt of the next read. -/
def Alike (s s' : TokenStream) : Prop := s.setContinuation false = s'.setContinuation false

variable {s s' s'' : TokenStream} {c c' : Console}

theorem Alike.refl (s : TokenStream) : s.Alike s := rfl

theorem Alike.trans (h : s.Alike s') (h' : s'.Alike s'') : s.Alike s'' := Eq.trans h h'

theorem alike_setContinuation (s : TokenStream) (b : Bool) : s.Alike (s.setContinuation b) := rfl

theorem Alike.rest (h : s.Alike s') : s.rest = s'.rest := by
  have hrest : (s.setContinuation false).rest = (s'.setContinuation false).rest := by
    rw [show s.setContinuation false = s'.setContinuation false from h]
  exact hrest

/-- Both prompts are of the same size. -/
theorem size_prompt (s : TokenStream) : s.prompt.toUTF8.size = 4 := by
  unfold prompt
  split <;> decide

theorem Alike.refill (hs : s.Alike s') (hc : c.Alike c') :
    (s.refill c).1 = (s'.refill c').1 ∧ (s.refill c).2.1.Alike (s'.refill c').2.1 ∧
      (s.refill c).2.2.Alike (s'.refill c').2.2 := by
  have hsize : s.prompt.toUTF8.size = s'.prompt.toUTF8.size := by
    rw [size_prompt, size_prompt]
  obtain ⟨source, line, offset, rest, lineNumber, continuation, exhausted⟩ := s
  obtain ⟨source', line', offset', rest', lineNumber', continuation', exhausted'⟩ := s'
  simp only [Alike, setContinuation, TokenStream.mk.injEq] at hs
  obtain ⟨rfl, rfl, rfl, rfl, rfl, -, rfl⟩ := hs
  unfold TokenStream.refill
  cases exhausted with
  | true => exact ⟨rfl, rfl, hc⟩
  | false =>
    obtain ⟨hresult, hsource, halike⟩ := source.read_alike hc hsize
    -- The text read, or the failure, is the same; only the consoles differ.
    dsimp only
    generalize hread : source.read _ c = answer at *
    generalize hread' : source.read _ c' = answer' at *
    obtain ⟨r, source₁, c₁⟩ := answer
    obtain ⟨r', source₁', c₁'⟩ := answer'
    cases hresult
    cases hsource
    cases r with
    | error f => exact ⟨rfl, rfl, halike⟩
    | ok text => exact ⟨rfl, rfl, halike⟩

theorem Alike.cut (hs : s.Alike s') : s.cut.1 = s'.cut.1 ∧ s.cut.2.Alike s'.cut.2 := by
  obtain ⟨source, line, offset, rest, lineNumber, continuation, exhausted⟩ := s
  obtain ⟨source', line', offset', rest', lineNumber', continuation', exhausted'⟩ := s'
  simp only [Alike, setContinuation, TokenStream.mk.injEq] at hs
  obtain ⟨rfl, rfl, rfl, rfl, rfl, -, rfl⟩ := hs
  unfold TokenStream.cut
  dsimp only
  cases Lexeme.scan? (splitGap rest).2 with
  | none => exact ⟨rfl, rfl⟩
  | some lr => exact ⟨rfl, rfl⟩

/-- Alike streams hand out the same token and stay alike. -/
theorem Alike.next (hs : s.Alike s') (hc : c.Alike c') :
    (s.next c).1 = (s'.next c').1 ∧ (s.next c).2.1.Alike (s'.next c').2.1 ∧
      (s.next c).2.2.Alike (s'.next c').2.2 := by
  unfold TokenStream.next
  rw [hs.rest]
  cases s'.rest.isEmpty with
  | false =>
    obtain ⟨hcut, hcut'⟩ := hs.cut
    exact ⟨congrArg (Except.map some) hcut, hcut', hc⟩
  | true =>
    obtain ⟨hresult, halike, hc'⟩ := hs.refill hc
    simp only [if_true]
    generalize s.refill c = answer at *
    generalize s'.refill c' = answer' at *
    obtain ⟨r, s₁, c₁⟩ := answer
    obtain ⟨r', s₁', c₁'⟩ := answer'
    cases hresult
    rcases r with f | b
    · exact ⟨rfl, halike, hc'⟩
    · cases b with
      | false => exact ⟨rfl, halike, hc'⟩
      | true =>
        obtain ⟨hcut, hcut'⟩ := Alike.cut halike
        exact ⟨congrArg (Except.map some) hcut, hcut', hc'⟩

/-! ### Several tokens -/

/-- What `n` calls of `next` give, one after another. -/
def nexts : Nat → TokenStream → Console →
    List (Except Failure (Option Token)) × TokenStream × Console
  | 0, s, c => ([], s, c)
  | n + 1, s, c =>
    let (item, s, c) := s.next c
    let (items, s, c) := nexts n s c
    (item :: items, s, c)

theorem nexts_succ {item : Except Failure (Option Token)} (n : Nat)
    (h : s.next c = (item, s', c')) :
    nexts (n + 1) s c = (item :: (nexts n s' c').1, (nexts n s' c').2) := by
  simp only [nexts, h]

theorem nexts_add (m n : Nat) (s : TokenStream) (c : Console) :
    nexts (m + n) s c =
      ((nexts m s c).1 ++ (nexts n (nexts m s c).2.1 (nexts m s c).2.2).1,
        (nexts n (nexts m s c).2.1 (nexts m s c).2.2).2) := by
  induction m generalizing s c with
  | zero => rw [Nat.zero_add]; rfl
  | succ m ih =>
    rcases h : s.next c with ⟨item, s', c'⟩
    have hadd : m + 1 + n = m + n + 1 := by omega
    rw [hadd, nexts_succ (m + n) h, nexts_succ m h, ih]
    rfl

theorem Alike.nexts (n : Nat) (hs : s.Alike s') (hc : c.Alike c') :
    (s.nexts n c).1 = (s'.nexts n c').1 ∧ (s.nexts n c).2.1.Alike (s'.nexts n c').2.1 ∧
      (s.nexts n c).2.2.Alike (s'.nexts n c').2.2 := by
  induction n generalizing s s' c c' with
  | zero => exact ⟨rfl, hs, hc⟩
  | succ n ih =>
    obtain ⟨hitem, hs', hc'⟩ := hs.next hc
    rcases h : s.next c with ⟨item, t, d⟩
    rcases h' : s'.next c' with ⟨item', t', d'⟩
    rw [h, h'] at hitem hs' hc'
    cases hitem
    obtain ⟨hitems, hs'', hc''⟩ := ih hs' hc'
    rw [nexts_succ n h, nexts_succ n h']
    exact ⟨congrArg (item :: ·) hitems, hs'', hc''⟩

end TokenStream

end PocketLisp
