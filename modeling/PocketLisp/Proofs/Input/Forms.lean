import Mathlib.Data.List.Basic
import PocketLisp.Input.Form
import PocketLisp.Proofs.Input.Lines
import PocketLisp.Proofs.Input.Prompts

/-!
# Forms are the tokens of a stream, grouped

Reading forms one after another takes the very tokens that the stream hands out, in order: line
ends are left out, and a group that the input leaves unfinished is dropped.

## Main definitions

- `Lexeme.balance`, `Token.balance` — how many more parentheses are opened than closed
- `FormRead` — what one reading of a form takes from the stream
- `FormRead.Valid` — when a reading stops
- `TokenStream.forms` — several forms, one after another

## Main statements

- `TokenStream.readForm_spec` — what one reading takes, and what it answers
- `TokenStream.forms_group_nexts` — and so for any number of readings

## Design notes

Reading forms changes the prompts that a stream shows, so its states are compared up to prompts.
-/

namespace PocketLisp

/-! ### Open parentheses -/

namespace Lexeme

/-- How many more parentheses the lexemes open than they close. -/
def balance (ls : List Lexeme) : Int := ls.count .leftParen - ls.count .rightParen

@[simp]
theorem balance_nil : balance [] = 0 := rfl

@[simp]
theorem balance_cons (l : Lexeme) (ls : List Lexeme) :
    balance (l :: ls) = l.nesting + balance ls := by
  unfold balance
  cases l with
  | leftParen => simp [nesting]; omega
  | rightParen => simp [nesting]; omega
  | newline | quote | atom => simp [nesting]

@[simp]
theorem balance_append (ls ms : List Lexeme) :
    balance (ls ++ ms) = balance ls + balance ms := by
  unfold balance
  rw [List.count_append, List.count_append]
  omega

end Lexeme

namespace Token

/-- How many more parentheses the tokens open than they close. -/
def balance (ts : List Token) : Int :=
  ts.countP (·.lexeme = .leftParen) - ts.countP (·.lexeme = .rightParen)

/-- Where tokens are does not matter for their parentheses. -/
theorem balance_eq (ts : List Token) : balance ts = Lexeme.balance (ts.map Token.lexeme) := by
  have hcount (l : Lexeme) : (ts.map Token.lexeme).count l = ts.countP (·.lexeme = l) := by
    rw [List.count, List.countP_map]
    rfl
  rw [balance, Lexeme.balance, hcount, hcount]

@[simp]
theorem balance_nil : balance [] = 0 := rfl

@[simp]
theorem balance_cons (t : Token) (ts : List Token) :
    balance (t :: ts) = t.lexeme.nesting + balance ts := by
  rw [balance_eq, balance_eq, List.map_cons, Lexeme.balance_cons]

theorem balance_append (ts us : List Token) :
    balance (ts ++ us) = balance ts + balance us := by
  rw [balance_eq, balance_eq, balance_eq, List.map_append, Lexeme.balance_append]

end Token

/-! ### One reading -/

/-- What one reading of a form takes from the stream. -/
structure FormRead where
  /-- The line ends in front of the form. -/
  blanks : List Token
  /-- The tokens from the first of the form on, with the line ends between them. -/
  body : List Token
  /-- What the stream gave last: the line end that ends the form, a failure, or nothing. -/
  last : Except Failure (Option Token)

namespace FormRead

/-- All that was taken from the stream. -/
def items (r : FormRead) : List (Except Failure (Option Token)) :=
  (r.blanks ++ r.body).map (fun t => .ok (some t)) ++ [r.last]

/-- The tokens that were collected. -/
def collected (r : FormRead) : List Token := r.body.filter (·.lexeme ≠ .newline)

/-- The answer when the stream gives `last` after some tokens were collected: without a line end
they are dropped, and the word `quit` alone is the request to stop. -/
def answerOf (collected : List Token) :
    Except Failure (Option Token) → Except Failure (Option Form)
  | .error f => .error f
  | .ok none => .ok none
  | .ok (some _) =>
    .ok (some (if collected.map Token.lexeme = [.atom "quit"] then .quit else .tokens collected))

theorem answerOf_of_token (collected : List Token) (t : Token) :
    answerOf collected (.ok (some t)) = .ok (some (Form.ofTokens collected)) := by
  rw [answerOf, Form.ofTokens_eq]

/-- The answer of the reading. -/
def answer (r : FormRead) : Except Failure (Option Form) := answerOf r.collected r.last

/-- Whether the reading ended with a form. -/
def Complete (r : FormRead) : Prop := ∃ t, r.last = .ok (some t)

/-- A form starts with its first token that is no line end, and ends before the first line end at
which no parenthesis is open. -/
structure Valid (r : FormRead) : Prop where
  blanks : ∀ t ∈ r.blanks, t.lexeme = .newline
  first : ∀ t, r.body.head? = some t → t.lexeme ≠ .newline
  inside : ∀ before t after, r.body = before ++ t :: after → t.lexeme = .newline →
    0 < Token.balance before
  last : ∀ t, r.last = .ok (some t) → t.lexeme = .newline ∧ Token.balance r.body ≤ 0 ∧
    ∃ u, r.body.getLast? = some u ∧ u.lexeme ≠ .newline

end FormRead

/-! ### Line ends inside a form -/

/-- After `depth` open parentheses, there is an open one at every line end among the tokens. -/
def StaysOpen (depth : Int) (ts : List Token) : Prop :=
  ∀ before t after, ts = before ++ t :: after → t.lexeme = .newline →
    0 < depth + Token.balance before

section

variable {depth : Int} {t : Token} {ts : List Token}

theorem staysOpen_nil : StaysOpen depth [] := by
  intro before t after h
  cases before <;> cases h

theorem StaysOpen.cons (ht : t.lexeme = .newline → 0 < depth)
    (hts : StaysOpen (depth + t.lexeme.nesting) ts) : StaysOpen depth (t :: ts) := by
  intro before u after h hu
  cases before with
  | nil =>
    cases h
    simpa using ht hu
  | cons v before =>
    cases h
    have := hts before u after rfl hu
    rw [Token.balance_cons]
    omega

/-- What stays open and is closed at last does not end with a line end. -/
theorem StaysOpen.getLast_ne_newline (h : StaysOpen depth ts) (hne : ts ≠ [])
    (hclosed : depth + Token.balance ts ≤ 0) :
    ∃ u, ts.getLast? = some u ∧ u.lexeme ≠ .newline := by
  obtain ⟨us, u, rfl⟩ := (List.eq_nil_or_concat' ts).resolve_left hne
  refine ⟨u, List.getLast?_concat, fun hu => ?_⟩
  have hopen := h us u [] rfl hu
  have hnesting : u.lexeme.nesting = 0 := by rw [hu]; rfl
  rw [Token.balance_append, Token.balance_cons, Token.balance_nil] at hclosed
  omega

theorem FormRead.Valid.of_nothing {last : Except Failure (Option Token)}
    (h : ∀ t, last ≠ .ok (some t)) : (FormRead.mk [] [] last).Valid where
  blanks := List.forall_mem_nil _
  first _ h := nomatch h
  inside before _ _ h := absurd h.symm (by simp)
  last t ht := absurd ht (h t)

end

/-! ### Runs of a stream, up to prompts -/

namespace TokenStream

variable {s s' s₁ s₂ : TokenStream} {c c' c₁ c₂ : Console}
  {item : Except Failure (Option Token)} {items items' : List (Except Failure (Option Token))}

/-- The stream hands out the items, one after another, and is then as the second one is, prompts
apart. -/
def Hands (s : TokenStream) (c : Console) (items : List (Except Failure (Option Token)))
    (s' : TokenStream) (c' : Console) : Prop :=
  (s.nexts items.length c).1 = items ∧ (s.nexts items.length c).2.1.Alike s' ∧
    (s.nexts items.length c).2.2.Alike c'

theorem Hands.refl (s : TokenStream) (c : Console) : s.Hands c [] s c := ⟨rfl, rfl, .refl c⟩

theorem Hands.append (h : s.Hands c items s₁ c₁) (h' : s₁.Hands c₁ items' s' c') :
    s.Hands c (items ++ items') s' c' := by
  obtain ⟨hitems, hs, hc⟩ := h
  obtain ⟨hitems', hs', hc'⟩ := h'
  obtain ⟨hsame, hs'', hc''⟩ := hs.nexts items'.length hc
  unfold Hands
  rw [List.length_append, nexts_add, hitems, hsame, hitems']
  exact ⟨rfl, hs''.trans hs', hc''.trans hc'⟩

theorem Hands.cons (h : s.next c = (item, s₁, c₁)) (h' : s₁.Hands c₁ items s' c') :
    s.Hands c (item :: items) s' c' := by
  have hone : s.Hands c [item] s₁ c₁ := by
    unfold Hands
    rw [List.length_singleton, nexts_succ 0 h]
    exact ⟨rfl, rfl, .refl _⟩
  exact hone.append h'

/-- The prompt of the next read does not matter. -/
theorem Hands.of_alike (hs : s.Alike s₁) (h : s₁.Hands c items s' c') : s.Hands c items s' c' := by
  have hnil : s.Hands c [] s₁ c := ⟨rfl, hs, .refl c⟩
  exact hnil.append h

/-- Only a read of the source that fails makes a stream fail. -/
theorem nexts_eq_error {f : Failure} (n k : Nat) (h : LineEnded s.rest)
    (hk : (s.nexts n c).1[k]? = some (.error f)) :
    ∃ source c', (s.nexts k c).2.1.source.read (s.nexts k c).2.1.prompt (s.nexts k c).2.2 =
      (.error f, source, c') := by
  induction n generalizing s c k with
  | zero => cases hk
  | succ n ih =>
    rcases hnext : s.next c with ⟨item, s₁, c₁⟩
    obtain ⟨hended, hcases⟩ := next_cases h hnext
    rw [nexts_succ n hnext] at hk
    cases k with
    | zero =>
      cases hk
      rcases hcases with ⟨t, ht, -⟩ | ⟨hnone, -⟩ | ⟨g, source, hg, -, hread⟩
      · cases ht
      · cases hnone
      · cases hg
        exact ⟨source, c₁, hread⟩
    | succ k =>
      rw [nexts_succ k hnext]
      exact ih k hended hk

/-! ### One form -/

/-- From `depth` open parentheses on, the reading of a form takes the tokens `more` and stops with
`last`. -/
structure GoesOn (depth : Int) (s : TokenStream) (c : Console) (more : List Token)
    (last : Except Failure (Option Token)) (s' : TokenStream) (c' : Console) : Prop where
  hands : s.Hands c (more.map (fun t => .ok (some t)) ++ [last]) s' c'
  staysOpen : StaysOpen depth more
  closes : ∀ t, last = .ok (some t) → t.lexeme = .newline ∧ depth + Token.balance more ≤ 0
  lineEnded : LineEnded s.rest → LineEnded s'.rest
  unfinished : LineEnded s.rest → (s.rest = [] → 0 < depth) → (∀ t, last ≠ .ok (some t)) →
    0 < depth + Token.balance more

theorem GoesOn.stop {depth : Int} (h : s.next c = (item, s', c'))
    (hitem : ∀ t, item = .ok (some t) → t.lexeme = .newline ∧ depth ≤ 0) :
    GoesOn depth s c [] item s' c' where
  hands := .cons h (.refl s' c')
  staysOpen := staysOpen_nil
  closes := by simpa using hitem
  lineEnded hended := (next_cases hended h).1
  unfinished hended hdepth hlast := by
    simpa using hdepth (rest_of_next hended h hlast)

theorem GoesOn.cons {depth : Int} {t : Token} {more : List Token} (hs : s₁.Alike s₂)
    (h : s.next c = (.ok (some t), s₁, c₁)) (ht : t.lexeme = .newline → 0 < depth)
    (hmore : GoesOn (depth + t.lexeme.nesting) s₂ c₁ more item s' c') :
    GoesOn depth s c (t :: more) item s' c' where
  hands := .cons h (hmore.hands.of_alike hs)
  staysOpen := hmore.staysOpen.cons ht
  closes u hu := by
    obtain ⟨hnewline, hbalance⟩ := hmore.closes u hu
    rw [Token.balance_cons]
    exact ⟨hnewline, by omega⟩
  lineEnded hended := hmore.lineEnded (hs.rest ▸ (next_cases hended h).1)
  unfinished hended hdepth hlast := by
    -- When the token used the line up it was a newline, and one inside the form.
    have hopen : s₂.rest = [] → 0 < depth + t.lexeme.nesting := by
      intro hrest
      have hnewline := lexeme_of_next hended h (hs.rest.trans hrest)
      have hpos := ht hnewline
      rw [hnewline]
      simpa [Lexeme.nesting] using hpos
    have hbalance := hmore.unfinished (hs.rest ▸ (next_cases hended h).1) hopen hlast
    rw [Token.balance_cons]
    omega

/-- The reading of a form that has begun. -/
theorem readFormAfter_spec {seen : List Token} {depth : Int} {a : Except Failure (Option Form)}
    (hseen : seen ≠ []) (h : readFormAfter seen depth s c = (a, s', c')) :
    ∃ more last, GoesOn depth s c more last s' c' ∧
      a = FormRead.answerOf (seen.reverse ++ more.filter (·.lexeme ≠ .newline)) last := by
  fun_induction readFormAfter seen depth s c with
  | case1 seen depth s c f s₁ c₁ hnext =>
    cases h
    exact ⟨[], .error f, .stop hnext (by simp), rfl⟩
  | case2 seen depth s c s₁ c₁ hnext =>
    cases h
    exact ⟨[], .ok none, .stop hnext (by simp), rfl⟩
  | case3 seen depth s c t s₁ c₁ hnext ht hstop =>
    cases h
    refine ⟨[], .ok (some t), .stop hnext ?_, ?_⟩
    · intro u hu
      cases hu
      exact ⟨ht, hstop.1⟩
    · rw [List.filter_nil, List.append_nil, FormRead.answerOf_of_token]
  | case4 seen depth s c t s₁ c₁ hnext ht hgo ih =>
    obtain ⟨more, last, hmore, ha⟩ := ih hseen h
    -- The reading would have stopped here if no parenthesis were open.
    have hdepth : 0 < depth := by
      by_contra hle
      exact hgo ⟨by omega, hseen⟩
    have hnesting : depth + t.lexeme.nesting = depth := by
      rw [ht]
      exact Int.add_zero depth
    rw [← hnesting] at hmore
    exact ⟨t :: more, last, .cons (alike_setContinuation s₁ _) hnext (fun _ => hdepth) hmore,
      by simpa [ht] using ha⟩
  | case5 seen depth s c t s₁ c₁ hnext ht ih =>
    obtain ⟨more, last, hmore, ha⟩ := ih (List.cons_ne_nil t seen) h
    exact ⟨t :: more, last, .cons (.refl s₁) hnext (fun h => absurd h ht) hmore,
      by simpa [ht] using ha⟩

theorem readFormAfter_nil_spec {seen : List Token} {depth : Int}
    {a : Except Failure (Option Form)} (hseen : seen = []) (hdepth : depth = 0)
    (h : readFormAfter seen depth s c = (a, s', c')) :
    ∃ r : FormRead, s.Hands c r.items s' c' ∧ a = r.answer ∧ r.Valid ∧
      (LineEnded s.rest → LineEnded s'.rest ∧
        (¬ r.Complete → r.body ≠ [] → 0 < Token.balance r.body)) := by
  fun_induction readFormAfter seen depth s c with
  | case1 seen depth s c f s₁ c₁ hnext =>
    cases h
    refine ⟨⟨[], [], .error f⟩, .cons hnext (.refl _ _), rfl, .of_nothing (by simp), ?_⟩
    exact fun hended => ⟨(next_cases hended hnext).1, fun _ hne => absurd rfl hne⟩
  | case2 seen depth s c s₁ c₁ hnext =>
    cases h
    refine ⟨⟨[], [], .ok none⟩, .cons hnext (.refl _ _), rfl, .of_nothing (by simp), ?_⟩
    exact fun hended => ⟨(next_cases hended hnext).1, fun _ hne => absurd rfl hne⟩
  | case3 seen depth s c t s₁ c₁ hnext ht hstop => exact absurd hseen hstop.2
  | case4 seen depth s c t s₁ c₁ hnext ht hgo ih =>
    obtain ⟨r, hhands, ha, hvalid, hfinish⟩ := ih hseen hdepth h
    refine ⟨{ r with blanks := t :: r.blanks }, ?_, ha, ?_, ?_⟩
    · exact .cons hnext (hhands.of_alike (alike_setContinuation s₁ _))
    · exact { hvalid with blanks := List.forall_mem_cons.2 ⟨ht, hvalid.blanks⟩ }
    · exact fun hended => hfinish (next_cases hended hnext).1
  | case5 seen depth s c t s₁ c₁ hnext ht ih =>
    -- The form begins with `t`.
    subst hseen hdepth
    obtain ⟨more, last, hmore, ha⟩ := readFormAfter_spec (List.cons_ne_nil t []) h
    have hbody : GoesOn 0 s c (t :: more) last s' c' :=
      hmore.cons (.refl s₁) hnext fun h => absurd h ht
    have hcollected : (t :: more).filter (·.lexeme ≠ .newline) =
        t :: more.filter (·.lexeme ≠ .newline) := by simp [ht]
    refine ⟨⟨[], t :: more, last⟩, hbody.hands, ?_, ?_, ?_⟩
    · rw [ha, FormRead.answer, FormRead.collected, hcollected]
      rfl
    · constructor
      case blanks => exact List.forall_mem_nil _
      case first =>
        intro u hu
        cases hu
        exact ht
      case inside => simpa [StaysOpen] using hbody.staysOpen
      case last =>
        intro u hu
        obtain ⟨hnewline, hclosed⟩ := hbody.closes u hu
        refine ⟨hnewline, by simpa using hclosed, ?_⟩
        exact hbody.staysOpen.getLast_ne_newline (List.cons_ne_nil t more) hclosed
    · intro hended
      refine ⟨hbody.lineEnded hended, fun hincomplete _ => ?_⟩
      -- The first token has not used up its line, for it is no newline.
      have hrest : s₁.rest = [] → 0 < 0 + t.lexeme.nesting := fun hrest =>
        absurd (lexeme_of_next hended hnext hrest) ht
      have hopen := hmore.unfinished (next_cases hended hnext).1 hrest
        fun u hu => hincomplete ⟨u, hu⟩
      show 0 < Token.balance (t :: more)
      rw [Token.balance_cons]
      omega

/-- The prompt of the first read does not matter for what one reading of a form takes. -/
theorem readForm_spec (s : TokenStream) (c : Console) :
    ∃ r : FormRead, s.Hands c r.items (s.readForm c).2.1 (s.readForm c).2.2 ∧
      (s.readForm c).1 = r.answer ∧ r.Valid ∧
      (LineEnded s.rest → LineEnded (s.readForm c).2.1.rest ∧
        (¬ r.Complete → r.body ≠ [] → 0 < Token.balance r.body)) := by
  have hread : readFormAfter [] 0 (s.setContinuation false) c = s.readForm c := rfl
  obtain ⟨r, hhands, ha, hvalid, hfinish⟩ := readFormAfter_nil_spec rfl rfl hread
  exact ⟨r, hhands.of_alike (alike_setContinuation s false), ha, hvalid, hfinish⟩

/-! ### Any number of forms -/

/-- What `n` calls of `readForm` give, one after another. -/
def forms : Nat → TokenStream → Console →
    List (Except Failure (Option Form)) × TokenStream × Console
  | 0, s, c => ([], s, c)
  | n + 1, s, c =>
    let (answer, s, c) := s.readForm c
    let (answers, s, c) := forms n s c
    (answer :: answers, s, c)

theorem forms_succ {a : Except Failure (Option Form)} (n : Nat)
    (h : s.readForm c = (a, s₁, c₁)) :
    forms (n + 1) s c = (a :: (forms n s₁ c₁).1, (forms n s₁ c₁).2) := by
  simp only [forms, h]

theorem forms_spec (n : Nat) (s : TokenStream) (c : Console) :
    ∃ reads : List FormRead,
      s.Hands c (reads.flatMap FormRead.items) (s.forms n c).2.1 (s.forms n c).2.2 ∧
      (s.forms n c).1 = reads.map FormRead.answer ∧ (∀ r ∈ reads, r.Valid) ∧
      (LineEnded s.rest → LineEnded (s.forms n c).2.1.rest ∧
        ∀ r ∈ reads, ¬ r.Complete → r.body ≠ [] → 0 < Token.balance r.body) := by
  induction n generalizing s c with
  | zero =>
    exact ⟨[], .refl s c, rfl, List.forall_mem_nil _, fun h => ⟨h, List.forall_mem_nil _⟩⟩
  | succ n ih =>
    obtain ⟨r, hhands, ha, hvalid, hfinish⟩ := s.readForm_spec c
    rcases hread : s.readForm c with ⟨a, s₁, c₁⟩
    rw [hread] at hhands ha hfinish
    cases ha
    obtain ⟨reads, hhands', has, hvalid', hfinish'⟩ := ih s₁ c₁
    rw [forms_succ n hread, has]
    refine ⟨r :: reads, hhands.append hhands', rfl, ?_, ?_⟩
    · exact List.forall_mem_cons.2 ⟨hvalid, hvalid'⟩
    · intro hended
      obtain ⟨hended', hr⟩ := hfinish hended
      obtain ⟨hended'', hrs⟩ := hfinish' hended'
      exact ⟨hended'', List.forall_mem_cons.2 ⟨hr, hrs⟩⟩

/-- The tokens among what a stream hands out, line ends left out. -/
def handedOut (items : List (Except Failure (Option Token))) : List Token :=
  items.filterMap fun
    | .ok (some t) => if t.lexeme = .newline then none else some t
    | _ => none

theorem handedOut_append (items items' : List (Except Failure (Option Token))) :
    handedOut (items ++ items') = handedOut items ++ handedOut items' := List.filterMap_append

theorem handedOut_tokens (ts : List Token) :
    handedOut (ts.map fun t => .ok (some t)) = ts.filter (·.lexeme ≠ .newline) := by
  induction ts with
  | nil => rfl
  | cons t ts ih =>
    rw [handedOut] at ih
    by_cases ht : t.lexeme = .newline
    · simp [handedOut, ht, ih]
    · simp [handedOut, ht, ih]

/-- A reading that ends with a form has collected tokens, and no line end is one of them. -/
theorem collected_of_complete {r : FormRead} (h : r.Valid) (hcomplete : r.Complete) :
    r.collected ≠ [] ∧ ∀ t ∈ r.collected, t.lexeme ≠ .newline := by
  obtain ⟨t, ht⟩ := hcomplete
  obtain ⟨-, -, u, hu, hnewline⟩ := h.last t ht
  have hcollected : u ∈ r.collected :=
    List.mem_filter.2 ⟨List.mem_of_getLast? hu, by simpa using hnewline⟩
  exact ⟨List.ne_nil_of_mem hcollected, fun v hv => by simpa using (List.mem_filter.1 hv).2⟩

/-- A reading collects all tokens that it takes, line ends left out. -/
theorem handedOut_items {r : FormRead} (h : r.Valid) : handedOut r.items = r.collected := by
  have hblanks : r.blanks.filter (·.lexeme ≠ .newline) = [] := by
    simpa using h.blanks
  have hlast : handedOut [r.last] = [] := by
    rcases hlast : r.last with f | t
    · rfl
    · cases t with
      | none => rfl
      | some t => simp [handedOut, (h.last t hlast).1]
  rw [FormRead.items, handedOut_append, handedOut_tokens, List.filter_append, hblanks, hlast,
    List.append_nil, List.nil_append]
  rfl

theorem handedOut_flatMap {reads : List FormRead} (h : ∀ r ∈ reads, r.Valid) :
    handedOut (reads.flatMap FormRead.items) = reads.flatMap FormRead.collected := by
  induction reads with
  | nil => rfl
  | cons r reads ih =>
    obtain ⟨hr, hreads⟩ := List.forall_mem_cons.1 h
    rw [List.flatMap_cons, handedOut_append, handedOut_items hr, ih hreads, List.flatMap_cons]

/-- Forms are the tokens of a stream in order, grouped. Each reading of a form takes line ends in
front of it, then the tokens from its first one on, and at last the first line end at which no
parenthesis is open, a failure or the end of the input. With that line end it answers the tokens
that it took, at least one, line ends left out; or the request to stop, if they are the word `quit`
alone. A reading without that line end answers nothing and drops what it took. On a stream whose
line in hand ends with a newline, as that of every source does, failures are those of the source,
and parentheses are open in what is dropped. -/
theorem forms_group_nexts (n : Nat) (s : TokenStream) (c : Console) :
    ∃ reads : List FormRead,
      (s.forms n c).1 = reads.map FormRead.answer ∧
      (s.nexts (reads.flatMap FormRead.items).length c).1 = reads.flatMap FormRead.items ∧
      (s.nexts (reads.flatMap FormRead.items).length c).2.1.Alike (s.forms n c).2.1 ∧
      handedOut (reads.flatMap FormRead.items) = reads.flatMap FormRead.collected ∧
      (∀ r ∈ reads, r.Valid) ∧
      (∀ r ∈ reads, r.Complete → r.collected ≠ [] ∧ (∀ t ∈ r.collected, t.lexeme ≠ .newline) ∧
        r.answer = .ok (some (if r.collected.map Token.lexeme = [.atom "quit"] then .quit
          else .tokens r.collected))) ∧
      (LineEnded s.rest →
        LineEnded (s.forms n c).2.1.rest ∧
        (∀ k f, (reads.flatMap FormRead.items)[k]? = some (.error f) → ∃ source c',
          (s.nexts k c).2.1.source.read (s.nexts k c).2.1.prompt (s.nexts k c).2.2 =
            (.error f, source, c')) ∧
        ∀ r ∈ reads, ¬ r.Complete → r.body ≠ [] → 0 < Token.balance r.body) := by
  obtain ⟨reads, ⟨hitems, halike, -⟩, hanswers, hvalid, hfinish⟩ := s.forms_spec n c
  refine ⟨reads, hanswers, hitems, halike, handedOut_flatMap hvalid, hvalid,
    fun r hr hcomplete => ?_, fun hended => ?_⟩
  · obtain ⟨hne, hnewline⟩ := collected_of_complete (hvalid r hr) hcomplete
    obtain ⟨t, ht⟩ := hcomplete
    exact ⟨hne, hnewline, by rw [FormRead.answer, ht, FormRead.answerOf]⟩
  · refine ⟨(hfinish hended).1, fun k f hk => ?_, (hfinish hended).2⟩
    rw [← hitems] at hk
    exact nexts_eq_error _ k hended hk

/-- A form on two lines, a request to stop, and then the end of the input. -/
theorem forms_group_nexts_two_lines :
    let s := ofSource (.ofString "(a\nb)\nquit\n" .silent)
    LineEnded s.rest ∧ ∃ reads : List FormRead,
      reads.map FormRead.answer =
        [.ok (some (.tokens
          [⟨.leftParen, 1, 1⟩, ⟨.atom "a", 1, 2⟩, ⟨.atom "b", 2, 1⟩, ⟨.rightParen, 2, 2⟩])),
          .ok (some .quit), .ok none] ∧
      (s.nexts (reads.flatMap FormRead.items).length .unlimited).1 =
        reads.flatMap FormRead.items ∧
      handedOut (reads.flatMap FormRead.items) = reads.flatMap FormRead.collected ∧
      (∀ r ∈ reads, r.Valid) ∧
      ∀ r ∈ reads, ¬ r.Complete → r.body ≠ [] → 0 < Token.balance r.body := by
  intro s
  have hended : LineEnded s.rest := lineEnded_nil
  obtain ⟨reads, hanswers, hitems, -, hcollected, hvalid, -, hfinish⟩ :=
    forms_group_nexts 3 s .unlimited
  refine ⟨hended, reads, ?_, hitems, hcollected, hvalid, (hfinish hended).2.2⟩
  rw [← hanswers]
  decide +kernel

end TokenStream

end PocketLisp
