import PocketLisp.Proofs.Code.Printed
import PocketLisp.Proofs.Grammar.Items
import PocketLisp.Proofs.Token.Layouts
import PocketLisp.Proofs.Value.Proper

/-!
# How an expression is spelled

Of the lexemes that an expression is read from, the quote marks that begin a quoted constant are
marked. The printed form has all the others, with numerals in their shortest form.

## Main definitions

- `Marked` — a lexeme that may be marked
- `Expr.Spelled` — marked lexemes that an expression is read from
- `Lexeme.canonical` — a lexeme as it is printed

## Main statements

- `Expr.exists_spelled_of_item` — what is read as an expression spells it
- `Expr.Spelled.unique` — there is only one way to mark it
- `Expr.Spelled.printed` — the printed form has the lexemes that are not marked

## Design notes

A quote mark is also a name, so what it stands for depends on the place: among formals, as the
target of `set`, inside a constant and at the end of a group it is a name, and only in front of a
constant it is marked.
-/

namespace PocketLisp

/-- A lexeme, and whether it is a quote mark that begins a quoted constant. -/
structure Marked where
  lexeme : Lexeme
  marked : Bool

namespace Marked

/-- A lexeme that is not marked. -/
def plain (l : Lexeme) : Marked := ⟨l, false⟩

/-- The lexemes that are not marked. -/
def kept (ms : List Marked) : List Lexeme := (ms.filter fun m => !m.marked).map lexeme

variable {l : Lexeme} {ls : List Lexeme} {ms ms' : List Marked}

@[simp]
theorem lexeme_plain : (plain l).lexeme = l := rfl

@[simp]
theorem lexeme_comp_plain : lexeme ∘ plain = id := by
  funext l
  rfl

@[simp]
theorem kept_nil : kept [] = [] := rfl

@[simp]
theorem kept_plain_cons : kept (plain l :: ms) = l :: kept ms := rfl

@[simp]
theorem kept_marked_cons : kept (⟨l, true⟩ :: ms) = kept ms := rfl

@[simp]
theorem kept_append : kept (ms ++ ms') = kept ms ++ kept ms' := by
  simp [kept]

@[simp]
theorem kept_map_plain : kept (ls.map plain) = ls := by
  induction ls with
  | nil => rfl
  | cons l ls ih => rw [List.map_cons, kept_plain_cons, ih]

end Marked

namespace Expr

mutual

/-- The expression is read from these lexemes, of which the quote marks that begin a quoted constant
are marked. -/
inductive Spelled : Expr → List Marked → Prop
  | number {l : Lexeme} {n : Word} :
      l.number? = some n → Spelled (.literal (.number n)) [.plain l]
  | quoted {ls : List Lexeme} {v : Value} :
      Grammar.Constant ls v [] → Spelled (.literal v) (⟨.quote, true⟩ :: ls.map .plain)
  | var {l : Lexeme} {x : String} : l.name? = some x → Spelled (.var x) [.plain l]
  | lambda {ls : List Lexeme} {formals : List String} {body : Expr} {ms : List Marked} :
      ls.map Lexeme.name? = formals.map some → Spelled body ms →
      Spelled (.lambda formals body)
        (.plain .leftParen :: .plain (.atom "lambda") :: .plain .leftParen ::
          (ls.map .plain ++ .plain .rightParen :: (ms ++ [.plain .rightParen])))
  | special {keyword : Keyword} {args : List Expr} {ms : List Marked} :
      SpelledAll args ms →
      Spelled (.special keyword args)
        (.plain .leftParen :: .plain (.atom keyword.text) :: (ms ++ [.plain .rightParen]))
  | call {operator : Expr} {args : List Expr} {ms ms' : List Marked} :
      Spelled operator ms → SpelledAll args ms' →
      Spelled (.call operator args) (.plain .leftParen :: (ms ++ (ms' ++ [.plain .rightParen])))

/-- The expressions are read from these lexemes, one after another. -/
inductive SpelledAll : List Expr → List Marked → Prop
  | nil : SpelledAll [] []
  | cons {e : Expr} {es : List Expr} {ms ms' : List Marked} :
      Spelled e ms → SpelledAll es ms' → SpelledAll (e :: es) (ms ++ ms')

end

/-! ### What is read is spelled -/

theorem map_name?_of_mapM {ts : List Tree} {xs : List String} (h : ts.mapM Tree.name? = some xs) :
    (Tree.allLexemes ts).map Lexeme.name? = xs.map some := by
  induction ts generalizing xs with
  | nil =>
    cases h
    rfl
  | cons t ts ih =>
    obtain ⟨l, x, xs', rfl, hx, hxs, rfl⟩ := Tree.mapM_name?_cons_eq_some_iff.1 h
    rw [Tree.allLexemes, Tree.lexemes, List.singleton_append, List.map_cons, hx, ih hxs,
      List.map_cons]

mutual

/-- What is read as an expression spells it. -/
theorem exists_spelled_of_item : ∀ (e : Expr) (item : List Tree), Tree.Item item e →
    ∃ ms, ms.map Marked.lexeme = Tree.allLexemes item ∧ e.Spelled ms
  | .literal v, item, h => by
    rcases h.literal with ⟨l, n, rfl, hn, rfl⟩ | ⟨t, rfl, hv⟩
    · exact ⟨[.plain l], rfl, .number hn⟩
    · have hconstant := Grammar.constant_of_constant? [] t v hv
      rw [List.append_nil] at hconstant
      refine ⟨_, ?_, .quoted hconstant⟩
      simp [Tree.allLexemes, Tree.lexemes]
  | .var x, item, h => by
    obtain ⟨l, rfl, hx⟩ := h.var
    exact ⟨[.plain l], rfl, .var hx⟩
  | .lambda formals body, item, h => by
    obtain ⟨items, rfl, he⟩ := h.group nofun nofun
    obtain ⟨hnames, hbody⟩ := Tree.lambdaItems_of_expr? he
    obtain ⟨ms, hms, hspelled⟩ := exists_spelled_of_item body _ (Tree.item_of_exprs? hbody)
    refine ⟨_, ?_, .lambda (map_name?_of_mapM hnames) hspelled⟩
    simp [Tree.allLexemes, Tree.lexemes, hms]
  | .special keyword args, item, h => by
    obtain ⟨items, rfl, he⟩ := h.group nofun nofun
    cases Tree.specialItems_of_expr? he with
    | branch hargs | loop hargs | sequence hargs =>
      obtain ⟨ms, hms, hspelled⟩ := exists_spelledAll_of_exprs? _ _ hargs
      refine ⟨_, ?_, .special hspelled⟩
      simp [Tree.allLexemes, Tree.lexemes, hms, Keyword.text]
    | @assign l args x value hl hargs =>
      obtain ⟨ms, hms, hspelled⟩ := exists_spelledAll_of_exprs? [value] _ hargs
      refine ⟨_, ?_, .special (.cons (.var hl) hspelled)⟩
      simp [Tree.allLexemes, Tree.lexemes, hms, Keyword.text]
  | .call operator args, item, h => by
    obtain ⟨items, rfl, he⟩ := h.group nofun nofun
    obtain ⟨first, rest, rfl, hfirst, hrest, -⟩ :=
      Tree.exprs?_eq_cons_iff.1 (Tree.exprs?_of_expr?_call he)
    obtain ⟨ms, hms, hoperator⟩ := exists_spelled_of_item operator first hfirst
    obtain ⟨ms', hms', hargs⟩ := exists_spelledAll_of_exprs? args rest hrest
    refine ⟨_, ?_, .call hoperator hargs⟩
    simp [Tree.allLexemes, Tree.lexemes, Tree.allLexemes_append, hms, hms']

theorem exists_spelledAll_of_exprs? : ∀ (es : List Expr) (ts : List Tree),
    Tree.exprs? ts = some es →
    ∃ ms, ms.map Marked.lexeme = Tree.allLexemes ts ∧ SpelledAll es ms
  | [], ts, h => by
    rw [Tree.exprs?_eq_nil h]
    exact ⟨[], rfl, .nil⟩
  | e :: es, ts, h => by
    obtain ⟨item, rest, rfl, hitem, hrest, -⟩ := Tree.exprs?_eq_cons_iff.1 h
    obtain ⟨ms, hms, hspelled⟩ := exists_spelled_of_item e item hitem
    obtain ⟨ms', hms', hspelled'⟩ := exists_spelledAll_of_exprs? es rest hrest
    exact ⟨ms ++ ms', by rw [List.map_append, hms, hms', Tree.allLexemes_append],
      .cons hspelled hspelled'⟩

end

/-! ### There is one way to mark the lexemes -/

theorem length_names {ls : List Lexeme} {xs : List String}
    (h : ls.map Lexeme.name? = xs.map some) : ls.length = xs.length := by
  simpa using congrArg List.length h

/-- What follows a constant is determined. -/
theorem constant_unique {ls ls' rest rest' : List Lexeme} {v : Value}
    (h : Grammar.Constant ls v []) (h' : Grammar.Constant ls' v [])
    (heq : ls ++ rest = ls' ++ rest') : ls = ls' ∧ rest = rest' := by
  obtain ⟨t, hbal, rfl, ht⟩ := h.exists_tree
  obtain ⟨t', hbal', rfl, ht'⟩ := h'.exists_tree
  rw [List.append_nil, List.append_nil] at heq
  have htake : Tree.take? (t.lexemes ++ rest) = some (t, rest) := Tree.take?_lexemes hbal
  rw [heq, Tree.take?_lexemes hbal'] at htake
  cases htake
  exact ⟨rfl, rfl⟩

mutual

theorem Spelled.unique_append : ∀ {e : Expr} {ms ms' : List Marked} {rest rest' : List Lexeme},
    Spelled e ms → Spelled e ms' →
      ms.map Marked.lexeme ++ rest = ms'.map Marked.lexeme ++ rest' → ms = ms' ∧ rest = rest'
  | _, _, _, _, _, .number hn, .number hn', heq => by
    cases heq
    exact ⟨rfl, rfl⟩
  | _, _, _, _, _, .number hn, .quoted hv, heq => by
    cases heq
    cases hn
  | _, _, _, _, _, .quoted hv, .number hn, heq => by
    cases heq
    cases hn
  | _, _, _, _, _, .quoted hv, .quoted hv', heq => by
    simp only [List.map_cons, List.map_map, Marked.lexeme_comp_plain, List.map_id,
      List.cons_append, List.cons.injEq, true_and] at heq
    obtain ⟨rfl, rfl⟩ := constant_unique hv hv' heq
    exact ⟨rfl, rfl⟩
  | _, _, _, _, _, .var hx, .var hx', heq => by
    cases heq
    exact ⟨rfl, rfl⟩
  | _, _, _, _, _, .lambda hls hbody, .lambda hls' hbody', heq => by
    have hlength := (length_names hls).trans (length_names hls').symm
    simp only [List.map_cons, List.map_append, List.map_map, Marked.lexeme_comp_plain, List.map_id,
      List.cons_append, List.append_assoc, List.cons.injEq, true_and] at heq
    obtain ⟨rfl, hrest⟩ := List.append_inj heq hlength
    obtain ⟨rfl, hend⟩ := hbody.unique_append hbody' (List.cons.inj hrest).2
    exact ⟨rfl, (List.cons.inj hend).2⟩
  | _, _, _, _, _, .special hargs, .special hargs', heq => by
    simp only [List.map_cons, List.map_append, List.cons_append, List.append_assoc,
      List.cons.injEq, true_and] at heq
    obtain ⟨rfl, hend⟩ := hargs.unique_append hargs' heq
    exact ⟨rfl, (List.cons.inj hend).2⟩
  | _, _, _, _, _, .call hoperator hargs, .call hoperator' hargs', heq => by
    simp only [List.map_cons, List.map_append, List.cons_append, List.append_assoc,
      List.cons.injEq, true_and] at heq
    obtain ⟨rfl, hrest⟩ := hoperator.unique_append hoperator' heq
    obtain ⟨rfl, hend⟩ := hargs.unique_append hargs' hrest
    exact ⟨rfl, (List.cons.inj hend).2⟩

theorem SpelledAll.unique_append :
    ∀ {es : List Expr} {ms ms' : List Marked} {rest rest' : List Lexeme},
      SpelledAll es ms → SpelledAll es ms' →
        ms.map Marked.lexeme ++ rest = ms'.map Marked.lexeme ++ rest' → ms = ms' ∧ rest = rest'
  | _, _, _, _, _, .nil, .nil, heq => ⟨rfl, heq⟩
  | _, _, _, _, _, .cons h hs, .cons h' hs', heq => by
    simp only [List.map_append, List.append_assoc] at heq
    obtain ⟨rfl, hrest⟩ := h.unique_append h' heq
    obtain ⟨rfl, hend⟩ := hs.unique_append hs' hrest
    exact ⟨rfl, hend⟩

end

/-- There is only one way to mark the lexemes that an expression is read from. -/
theorem Spelled.unique {e : Expr} {ms ms' : List Marked} (h : e.Spelled ms) (h' : e.Spelled ms')
    (heq : ms.map Marked.lexeme = ms'.map Marked.lexeme) : ms = ms' := by
  have hend : ms.map Marked.lexeme ++ [] = ms'.map Marked.lexeme ++ [] := by rw [heq]
  exact (h.unique_append h' hend).1

end Expr

/-! ### Lexemes as they are printed -/

namespace Lexeme

/-- The lexeme as it is printed: a number as its shortest numeral, all else as it is. -/
def canonical (l : Lexeme) : Lexeme :=
  match l.number? with
  | some n => atom n.text
  | none => l

variable {l : Lexeme} {n : Word} {x : String}

theorem canonical_of_number? (h : l.number? = some n) : l.canonical = atom n.text := by
  rw [canonical, h]

theorem canonical_of_name? (h : l.name? = some x) : l.canonical = l := by
  cases hn : l.number? with
  | none => rw [canonical, hn]
  | some n =>
    rw [Grammar.name?_eq_none_of_number? hn] at h
    cases h

/-- A lexeme that is a name is the lexeme of that name, if it can be written. -/
theorem Written.ofName_eq (h : l.Written) (hx : l.name? = some x) : ofName x = l := by
  cases l with
  | quote =>
    cases hx
    rfl
  | atom text =>
    simp only [name?, Option.ite_none_right_eq_some, Option.some.injEq] at hx
    obtain ⟨-, rfl⟩ := hx
    refine if_neg fun hquote => ?_
    subst hquote
    exact h.unquoted rfl
  | _ => cases hx

theorem Written.readable (h : l.Written) (hx : l.name? = some x) : Symbol.Readable x := by
  cases l with
  | quote =>
    cases hx
    exact .inl rfl
  | atom text =>
    simp only [name?, Option.ite_none_right_eq_some, Option.some.injEq] at hx
    obtain ⟨hname, rfl⟩ := hx
    simp only [isName, Bool.and_eq_true, Bool.not_eq_true'] at hname
    exact .inr ⟨by simpa using h.nonempty, hname.1.2, h.solid, h.unquoted⟩
  | _ => cases hx

/-- What is scanned, the ends of lines apart, can be written. -/
theorem written_of_mem_scanAll {cs : List Char} (h : l ∈ scanAll cs) (hl : l ≠ newline) :
    l.Written := by
  fun_induction scanAll cs with
  | case1 => cases h
  | case2 cs m rest hscan ih =>
    rcases List.mem_cons.1 h with rfl | h
    · cases l with
      | newline => exact hl rfl
      | atom text => exact (atom_of_scan? hscan).1
      | _ => trivial
    · exact ih h

end Lexeme

/-! ### The lexemes of the printed form -/

namespace Value

theorem readable_ofList {vs : List Value} (h : ∀ v ∈ vs, v.Readable) : (ofList vs).Readable :=
  all_ofList (fun _ h => nomatch h) (fun _ _ _ h => nomatch h) h

theorem restLexemes_ofList (vs : List Value) :
    (ofList vs).restLexemes = vs.flatMap lexemes ++ [.rightParen] := by
  induction vs with
  | nil => rfl
  | cons v vs ih =>
    rw [ofList_cons, restLexemes, ih, List.flatMap_cons, List.append_assoc]

/-- A list that ends in the empty list is printed item by item. -/
theorem lexemes_ofList (vs : List Value) :
    (ofList vs).lexemes = .leftParen :: (vs.flatMap lexemes ++ [.rightParen]) := by
  cases vs with
  | nil => rfl
  | cons v vs =>
    rw [ofList_cons, lexemes, restLexemes_ofList, List.flatMap_cons, List.append_assoc]

end Value

namespace Tree

mutual

/-- A constant is printed with the lexemes that it is read from. -/
theorem printed_of_constant? : ∀ (t : Tree) (v : Value), t.constant? = some v →
    (∀ l ∈ t.lexemes, l.Written) →
    v.Readable ∧ v.lexemes = t.lexemes.map Lexeme.canonical
  | leaf l, v, h, hwritten => by
    have hl := hwritten l (List.mem_singleton_self l)
    rcases Grammar.constant?_eq_some_iff.1 h with ⟨n, hn, rfl⟩ | ⟨x, hx, rfl⟩
    · refine ⟨(fun _ h => nomatch h), ?_⟩
      rw [lexemes, List.map_singleton, Lexeme.canonical_of_number? hn]
      rfl
    · refine ⟨?_, ?_⟩
      · intro name heq
        cases heq
        exact hl.readable hx
      · rw [lexemes, List.map_singleton, Lexeme.canonical_of_name? hx, ← hl.ofName_eq hx]
        rfl
  | group items, v, h, hwritten => by
    obtain ⟨vs, hvs, rfl⟩ := Option.map_eq_some_iff.1 h
    have hitems : ∀ l ∈ allLexemes items, l.Written := fun l hl =>
      hwritten l (by simp [lexemes, hl])
    obtain ⟨hreadable, hlexemes⟩ := printed_of_constants? items vs hvs hitems
    refine ⟨Value.readable_ofList hreadable, ?_⟩
    rw [Value.lexemes_ofList, hlexemes, lexemes, List.map_cons, List.map_append]
    rfl

theorem printed_of_constants? : ∀ (ts : List Tree) (vs : List Value), constants? ts = some vs →
    (∀ l ∈ allLexemes ts, l.Written) →
    (∀ v ∈ vs, v.Readable) ∧ vs.flatMap Value.lexemes = (allLexemes ts).map Lexeme.canonical
  | [], vs, h, _ => by
    cases h
    exact ⟨List.forall_mem_nil _, rfl⟩
  | t :: ts, vs, h, hwritten => by
    simp only [constants?] at h
    split at h
    · cases h
    · next v hv =>
      obtain ⟨vs', hvs, rfl⟩ := Option.map_eq_some_iff.1 h
      rw [allLexemes, List.forall_mem_append] at hwritten
      obtain ⟨hreadable, hlexemes⟩ := printed_of_constant? t v hv hwritten.1
      obtain ⟨hreadable', hlexemes'⟩ := printed_of_constants? ts vs' hvs hwritten.2
      refine ⟨List.forall_mem_cons.2 ⟨hreadable, hreadable'⟩, ?_⟩
      rw [List.flatMap_cons, hlexemes, hlexemes', allLexemes, List.map_append]

end

end Tree

namespace Expr

/-- Names are printed as they are. -/
theorem printed_names : ∀ {ls : List Lexeme} {xs : List String},
    ls.map Lexeme.name? = xs.map some → (∀ l ∈ ls, l.Written) →
    (∀ x ∈ xs, Symbol.Readable x) ∧ xs.map Lexeme.ofName = ls.map Lexeme.canonical
  | [], [], _, _ => ⟨List.forall_mem_nil _, rfl⟩
  | l :: ls, x :: xs, h, hwritten => by
    obtain ⟨hx, hxs⟩ := List.cons.inj h
    obtain ⟨hl, hls⟩ := List.forall_mem_cons.1 hwritten
    obtain ⟨hreadable, hlexemes⟩ := printed_names hxs hls
    refine ⟨List.forall_mem_cons.2 ⟨hl.readable hx, hreadable⟩, ?_⟩
    rw [List.map_cons, List.map_cons, hlexemes, hl.ofName_eq hx, Lexeme.canonical_of_name? hx]

mutual

/-- An expression is printed with the lexemes that are not marked, numbers in their shortest form.
-/
theorem Spelled.printed : ∀ {e : Expr} {ms : List Marked}, e.Spelled ms →
    (∀ m ∈ ms, m.lexeme.Written) →
    e.Readable ∧ e.lexemes = (Marked.kept ms).map Lexeme.canonical
  | _, _, .number hn, hwritten => by
    refine ⟨(fun _ h => nomatch h), ?_⟩
    rw [Marked.kept_plain_cons, Marked.kept_nil, List.map_singleton,
      Lexeme.canonical_of_number? hn]
    rfl
  | _, _, .quoted hv, hwritten => by
    obtain ⟨t, -, rfl, ht⟩ := hv.exists_tree
    rw [List.append_nil] at hwritten ⊢
    have hconstant : ∀ l ∈ t.lexemes, l.Written := fun l hl =>
      hwritten (.plain l) (List.mem_cons_of_mem _ (List.mem_map_of_mem hl))
    obtain ⟨hreadable, hlexemes⟩ := t.printed_of_constant? _ ht hconstant
    refine ⟨hreadable, ?_⟩
    rw [Marked.kept_marked_cons, Marked.kept_map_plain]
    exact hlexemes
  | _, _, @Spelled.var l x hx, hwritten => by
    have hl : l.Written := hwritten _ (List.mem_singleton_self _)
    refine ⟨hl.readable hx, ?_⟩
    rw [Marked.kept_plain_cons, Marked.kept_nil, List.map_singleton,
      Lexeme.canonical_of_name? hx, ← hl.ofName_eq hx]
    rfl
  | _, _, @Spelled.lambda ls formals body ms hls hbody, hwritten => by
    have hnames : ∀ l ∈ ls, l.Written := by
      intro l hl
      have hmem : .plain l ∈ ls.map Marked.plain := List.mem_map_of_mem hl
      refine hwritten (.plain l) ?_
      simp only [List.mem_cons, List.mem_append, hmem, true_or, or_true]
    have hrest : ∀ m ∈ ms, m.lexeme.Written := fun m hm => hwritten m (by simp [hm])
    obtain ⟨hformals, hlexemes⟩ := printed_names hls hnames
    obtain ⟨hreadable, hlexemes'⟩ := hbody.printed hrest
    refine ⟨⟨hformals, hreadable⟩, ?_⟩
    simp only [lexemes, hlexemes, hlexemes', Marked.kept_plain_cons, Marked.kept_append,
      Marked.kept_map_plain, Marked.kept_nil, List.map_cons, List.map_append]
    rfl
  | _, _, @Spelled.special keyword args ms hargs, hwritten => by
    have hrest : ∀ m ∈ ms, m.lexeme.Written := fun m hm => hwritten m (by simp [hm])
    obtain ⟨hreadable, hlexemes⟩ := hargs.printed hrest
    refine ⟨⟨trivial, hreadable⟩, ?_⟩
    have hkeyword : (Lexeme.atom keyword.text).canonical = .atom keyword.text := by
      cases keyword <;> rfl
    simp only [lexemes, hlexemes, Marked.kept_plain_cons, Marked.kept_append, Marked.kept_nil,
      List.map_cons, List.map_append, hkeyword]
    rfl
  | _, _, @Spelled.call operator args ms ms' hoperator hargs, hwritten => by
    have hfirst : ∀ m ∈ ms, m.lexeme.Written := fun m hm => hwritten m (by simp [hm])
    have hrest : ∀ m ∈ ms', m.lexeme.Written := fun m hm => hwritten m (by simp [hm])
    obtain ⟨hreadable, hlexemes⟩ := hoperator.printed hfirst
    obtain ⟨hreadable', hlexemes'⟩ := hargs.printed hrest
    refine ⟨⟨trivial, hreadable, hreadable'⟩, ?_⟩
    simp only [lexemes, hlexemes, hlexemes', Marked.kept_plain_cons, Marked.kept_append,
      Marked.kept_nil, List.map_cons, List.map_append]
    rfl

theorem SpelledAll.printed : ∀ {es : List Expr} {ms : List Marked}, SpelledAll es ms →
    (∀ m ∈ ms, m.lexeme.Written) →
    AllArgs HoldsReadable es ∧ allLexemes es = (Marked.kept ms).map Lexeme.canonical
  | _, _, .nil, _ => ⟨trivial, rfl⟩
  | _, _, .cons h hs, hwritten => by
    rw [List.forall_mem_append] at hwritten
    obtain ⟨hreadable, hlexemes⟩ := h.printed hwritten.1
    obtain ⟨hreadable', hlexemes'⟩ := hs.printed hwritten.2
    refine ⟨⟨hreadable, hreadable'⟩, ?_⟩
    rw [allLexemes, hlexemes, hlexemes', Marked.kept_append, List.map_append]

end

end Expr

end PocketLisp
