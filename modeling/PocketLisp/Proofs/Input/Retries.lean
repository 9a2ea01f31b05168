import PocketLisp.Proofs.Input.Prompted
import PocketLisp.Proofs.Input.Scripts

/-!
# Going on after a failure

A call that fails can be repeated: no token is lost, whether a read of the source failed or the
prompt in front of it could not be shown.

## Main definitions

- `TokenStream.nextsOn` — calls one after another, each with a console of its own

## Main statements

- `TokenStream.nextsOn_answered` — the calls that do not fail answer as without prompts
- `nexts_lose_nothing` — neither failing reads nor refused prompts lose a token

## Design notes

A sink that refuses some writes or flushes and later takes others is given by the consoles of the
calls. A call shows one prompt at most.
-/

namespace PocketLisp

open TokenStream (completeLine)

namespace TokenStream

/-- What calls of `next` answer, one after another, each with a console of its own, and the stream
that they leave. -/
def nextsOn : List Console → TokenStream →
    List (Except Failure (Option Token)) × TokenStream
  | [], s => ([], s)
  | c :: cs, s =>
    let (item, s, _) := s.next c
    let (items, s) := nextsOn cs s
    (item :: items, s)

variable {s s' : TokenStream} {reads : List Read} {c c' : Console}

theorem nextsOn_cons {item : Except Failure (Option Token)} (cs : List Console)
    (h : s.next c = (item, s', c')) :
    nextsOn (c :: cs) s = (item :: (nextsOn cs s').1, (nextsOn cs s').2) := by
  simp only [nextsOn, h]

/-- The calls that do not fail answer as without prompts, if no read of the source fails. There are
at least as many of them as there are consoles that take the prompt. -/
theorem nextsOn_answered (h : Scripted reads s.quiet)
    (hok : ∀ item ∈ s.quiet.itemsLeft, item.isOk = true) (cs : List Console) :
    ∃ m, cs.length ≤ m + cs.countP s.source.prompting.refuses ∧
      (nextsOn cs s).1.filter Except.isOk = answersOf m s.quiet.itemsLeft := by
  induction cs generalizing s with
  | nil => exact ⟨0, Nat.le_refl _, by simp [answersOf, nextsOn]⟩
  | cons c cs ih =>
    rcases s.next_cases_prompted c .unlimited with ⟨hrefused, f, c', hnext⟩ | ⟨c', hnext⟩
    · -- The call is made again, with the next console.
      obtain ⟨m, hm, hitems⟩ := ih h hok
      refine ⟨m, ?_, ?_⟩
      · rw [List.length_cons, List.countP_cons_of_pos hrefused]
        omega
      · rw [nextsOn_cons cs hnext, ← hitems]
        rfl
    · obtain ⟨s₁, hquiet, h₁, hleft, -⟩ := h.next_answers
      rw [hquiet] at hnext
      dsimp only at hnext
      have hself : (s₁.withPrompting s.source.prompting).quiet = s₁ := by
        rw [quiet_withPrompting, quiet_of_silent h₁.silent]
      have hok₁ : ∀ item ∈ s₁.itemsLeft, item.isOk = true := by
        rw [hleft]
        exact fun item hitem => hok item (List.mem_of_mem_tail hitem)
      have hhead : (s.quiet.itemsLeft.headD (.ok none)).isOk = true := by
        cases hitems : s.quiet.itemsLeft with
        | nil => rfl
        | cons item items => exact hok item (by simp [hitems])
      rw [← hself] at h₁ hok₁
      obtain ⟨m, hm, hitems⟩ := ih h₁ hok₁
      rw [hself, hleft] at hitems
      refine ⟨m + 1, ?_, ?_⟩
      · have hmore : cs.countP s.source.prompting.refuses ≤
            (c :: cs).countP s.source.prompting.refuses :=
          (List.sublist_cons_self c cs).countP_le
        rw [List.length_cons]
        exact Nat.le_trans (Nat.succ_le_succ hm) (by dsimp only [withPrompting]; omega)
      · rw [nextsOn_cons cs hnext, List.filter_cons_of_pos hhead, hitems, answersOf_succ]

end TokenStream

open TokenStream

/-- The items for lines are their tokens. -/
theorem itemsOf_lines (number : Nat) {lines : List (List Char)} (h : ∀ line ∈ lines, line ≠ []) :
    itemsOf number (liveReads (lines.map fun line => .line (String.ofList line))) =
      (tokensOfLines (number + 1) (lines.map completeLine)).map fun t => .ok (some t) := by
  induction lines generalizing number with
  | nil => rfl
  | cons line lines ih =>
    obtain ⟨hline, hlines⟩ := List.forall_mem_cons.1 h
    have hlive : (Read.line (String.ofList line)).isEnd = false := by simp [Read.isEnd, hline]
    rw [List.map_cons, liveReads_cons hlive, itemsOf, ih _ hlines, String.toList_ofList,
      List.map_cons, tokensOfLines, List.map_append]

/-- The items for a text are its tokens. -/
theorem itemsOf_ofString (text : String) (p : Prompting) :
    ∃ ts, tokenize text = .ok ts ∧
      itemsOf 0 (liveReads (LineSource.ofString text p).reads) =
        ts.map fun t => .ok (some t) :=
  ⟨_, tokenize_eq text, itemsOf_lines 0 fun _ => ne_nil_of_mem_splitAfter⟩

/-- Texts that are completed end with a newline, all together. -/
theorem lineEnded_completed (reads : List Read) : LineEnded (reads.flatMap Read.completed) := by
  induction reads with
  | nil => exact lineEnded_nil
  | cons r reads ih =>
    rw [List.flatMap_cons]
    exact r.lineEnded_completed.append ih

/-- Neither a failing read nor a refused prompt loses a token, and how a text is cut into reads does
not matter for what the tokens are.

Calls on a source that hands out any texts and failures answer with the items for the reads up to
the end, and then with nothing. These are one error for each failure in its place, and the tokens of
each text on a line of its own. They have the lexemes of all texts together. The stream counts the
texts that it took, and the read that found the end.

For a text whose prompts go to sinks that refuse some of them, the calls that do not fail answer
with the tokens of the text, and then with nothing. All calls but one for each refused prompt do not
fail. -/
theorem nexts_lose_nothing :
    (∀ reads : List Read, ∃ items ts,
      ScriptItems 0 (liveReads reads) items ∧
      tokenize (String.ofList ((liveReads reads).flatMap Read.completed)) = .ok ts ∧
      (tokensIn items).map Token.lexeme = ts.map Token.lexeme ∧
      ∀ n c, ∃ s taken, (ofSource ⟨reads, .silent⟩).nexts n c = (answersOf n items, s, c) ∧
        reads = taken ++ s.source.reads ∧
        s.lineNumber = taken.countP Read.isText + if items.length < n then 1 else 0) ∧
    ∀ (text : String) (p : Prompting), ∃ ts, tokenize text = .ok ts ∧ ∀ cs : List Console, ∃ m,
      cs.length ≤ m + cs.countP p.refuses ∧
      (nextsOn cs (ofSource (.ofString text p))).1.filter Except.isOk =
        answersOf m (ts.map fun t => .ok (some t)) := by
  constructor
  · intro reads
    obtain ⟨ts, hts, hlexemes⟩ :=
      lexemes_tokenize (String.ofList ((liveReads reads).flatMap Read.completed))
    refine ⟨_, ts, scriptItems_itemsOf 0 (liveReads reads), hts, ?_, fun n c => ?_⟩
    · rw [hlexemes, lexemes_itemsOf, String.toList_ofList,
        completeLine_of_lineEnded (lineEnded_completed _)]
    · obtain ⟨s, hnexts, h, hexhausted⟩ := (scripted_ofSource reads).nexts n c
      obtain ⟨taken, htaken, hnumber⟩ := h.taken
      rw [itemsLeft_ofSource] at hnexts hexhausted
      refine ⟨s, taken, hnexts, htaken, ?_⟩
      rw [hnumber]
      simp only [hexhausted, ofSource, Bool.false_eq_true, false_or]
  · intro text p
    obtain ⟨ts, hts, hitems⟩ := itemsOf_ofString text p
    refine ⟨ts, hts, fun cs => ?_⟩
    have hquiet : (ofSource (.ofString text p)).quiet.itemsLeft = ts.map fun t => .ok (some t) :=
      (itemsLeft_ofSource _).trans hitems
    have hok : ∀ item ∈ (ofSource (.ofString text p)).quiet.itemsLeft, item.isOk = true := by
      intro item hitem
      rw [hquiet] at hitem
      obtain ⟨t, -, rfl⟩ := List.mem_map.1 hitem
      rfl
    rw [← hquiet]
    exact nextsOn_answered (scripted_ofSource _) hok cs

end PocketLisp
