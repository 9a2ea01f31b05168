import PocketLisp.Proofs.Grammar.Acceptance

/-!
# Recursive descent

The grammar read without matching the parentheses first: every rule is tried at a place of the text,
the rules inside it at the places where the ones before them end, and where a rule does not apply
the next one is tried at the same place.

## Main definitions

- `Trial` — how it ends when a rule is tried
- `Descent` — a rule that can be tried at every place of every text
- `Descent.many` — items one after another, as long as there is one
- `Descent.expression`, `Descent.value`, `Descent.constant` — the rules of the grammar
- `Descent.form?` — a whole form
- `Trial.Tells` — a trial tells what a relation reads at a place
- `Grammar.Then`, `Grammar.Only`, `Grammar.Longest` — relations for the parts of a rule

## Main statements

- `Trial.Tells.bind`, `Trial.Tells.orElse` — rules after one another, and one or else another
- `Descent.many_stops` — a repetition stops when its items tell and use up tokens

## Design notes

Nothing sees to it that reading ends. The rules are defined up to a depth, to which they are nested
and to which repetitions go on; a trial that would go deeper is unfinished. That a certain depth
suffices is what there is to prove.
-/

namespace PocketLisp

/-- How it ends when a rule is tried at a place of a text. -/
inductive Trial (α : Type) where
  /-- The rule applies, and what it reads ends before this place. -/
  | found (x : α) (next : Nat)
  /-- The rule does not apply. -/
  | missed
  /-- Something is taken from where there is nothing. -/
  | crashed
  /-- The depth that is allowed does not suffice. -/
  | unfinished

/-- A rule that can be tried at every place of every text. -/
def Descent (α : Type) : Type := List Token → Nat → Trial α

namespace Descent

variable {α β : Type}

instance : Monad Descent where
  pure x := fun _ i => .found x i
  bind p f := fun ts i =>
    match p ts i with
    | .found x j => f x ts j
    | .missed => .missed
    | .crashed => .crashed
    | .unfinished => .unfinished

instance : OrElse (Descent α) where
  orElse p q := fun ts i =>
    match p ts i with
    | .missed => q () ts i
    | trial => trial

/-! ### Single tokens -/

/-- One token that means something. -/
def one (meaning : Lexeme → Option α) : Descent α := fun ts i =>
  match ts[i]? with
  | none => .missed
  | some t =>
    match meaning t.lexeme with
    | none => .missed
    | some x => .found x (i + 1)

/-- This lexeme and no other. -/
def only (l : Lexeme) : Descent Unit := one fun l' => if l' = l then some () else none

def number : Descent Word := one Lexeme.number?

def name : Descent String := one Lexeme.name?

/-! ### Repetition -/

/-- Items one after another, as long as there is one. -/
def many (item : Descent α) : (depth : Nat) → Descent (List α)
  | 0 => fun _ _ => .unfinished
  | depth + 1 => fun ts i =>
    match item ts i with
    | .found x j => ((x :: ·) <$> many item depth) ts j
    | .missed => .found [] i
    | .crashed => .crashed
    | .unfinished => .unfinished

/-- Items in parentheses. -/
def enclosed (item : Descent α) (depth : Nat) : Descent (List α) := do
  only .leftParen
  let items ← many item depth
  only .rightParen
  return items

/-! ### Constants -/

/-- Constants in parentheses. -/
def list (constant : Descent Value) (depth : Nat) : Descent Value := do
  return .ofList (← enclosed constant depth)

/-- A number, a name, or constants in parentheses. -/
def constant : (depth : Nat) → Descent Value
  | 0 => fun _ _ => .unfinished
  | depth + 1 =>
    (do return .number (← number)) <|> (do return .symbol (← name)) <|> list (constant depth) depth

/-- A constant after a quote mark. -/
def quoted (constant : Descent Value) : Descent Value := do
  only .quote
  constant

/-! ### Expressions -/

section
variable (expression : Descent Expr) (constant : Descent Value) (depth : Nat)

/-- At least one expression. -/
def expressions : Descent (List Expr) := do
  let first ← expression
  let others ← many expression depth
  return first :: others

/-- A parenthesis and the word after it. -/
def keyword (word : String) : Descent Unit := do
  only .leftParen
  only (.atom word)

/-- Names in parentheses. -/
def formals : Descent (List String) := enclosed name depth

def lambda : Descent Expr := do
  keyword "lambda"
  let names ← formals depth
  let body ← expression
  only .rightParen
  return .lambda names body

/-- A number, a quoted constant or a `lambda`. -/
def plain : Descent Expr :=
  (do return .literal (.number (← number))) <|> (do return .literal (← quoted constant)) <|>
    lambda expression depth

def branch : Descent Expr := do
  keyword "if"
  let condition ← expression
  let consequent ← expression
  let alternative ← expression
  only .rightParen
  return .special .branch [condition, consequent, alternative]

def loop : Descent Expr := do
  keyword "while"
  let condition ← expression
  let body ← expression
  only .rightParen
  return .special .loop [condition, body]

def assign : Descent Expr := do
  keyword "set"
  let target ← name
  let e ← expression
  only .rightParen
  return .special .assign [.var target, e]

def sequence : Descent Expr := do
  keyword "begin"
  let body ← expressions expression depth
  only .rightParen
  return .special .sequence body

/-- The call of the first of several expressions, which there has to be. -/
def callOf : List Expr → Descent Expr
  | [] => fun _ _ => .crashed
  | operator :: args => return .call operator args

def call : Descent Expr := do
  only .leftParen
  let items ← expressions expression depth
  only .rightParen
  callOf items

end

/-- An expression. A call is tried last, so that keywords are not read as operators. -/
def expression : (depth : Nat) → Descent Expr
  | 0 => fun _ _ => .unfinished
  | depth + 1 =>
    plain (expression depth) (constant depth) depth <|> (do return .var (← name)) <|>
      branch (expression depth) <|> loop (expression depth) <|> assign (expression depth) <|>
      sequence (expression depth) depth <|> call (expression depth) depth

/-- The value of a whole form, or the error that it is refused with. -/
def form? (depth : Nat) (ts : List Token) : Option (Except Error Expr) :=
  match expression depth ts 0 with
  | .found e j =>
    if j = ts.length then some (.ok e)
    else ts[j]?.map fun t => .error (.trailing t.text)
  | .missed => some (.error .unparsable)
  | .crashed | .unfinished => none

end Descent

/-! ### Relations for the parts of a rule -/

namespace Grammar

variable {α β : Type} {R : Reading α} {ls mid rest rest' : List Lexeme} {x x' : α}
  {xs xs' : List α}

/-- One part of a rule, and after it another that depends on what was read. -/
def Then (R : Reading α) (S : α → Reading β) : Reading β := fun ls y rest =>
  ∃ x mid, R ls x mid ∧ S x mid y rest

/-- Nothing is read. -/
def Done (x : α) : Reading α := fun ls y rest => y = x ∧ ls = rest

/-- One lexeme that means something. -/
def Meaning (meaning : Lexeme → Option α) : Reading α := fun ls x rest =>
  ∃ l, ls = l :: rest ∧ meaning l = some x

/-- This lexeme and no other. -/
def Only (l : Lexeme) : Reading Unit := fun ls _ rest => ls = l :: rest

/-- Items one after another, until there is none. -/
def Longest (R : Reading α) : Reading (List α) := fun ls xs rest =>
  Many R ls xs rest ∧ ∀ x rest', ¬ R rest x rest'

/-- A text is read in one way. -/
def Unique (R : Reading α) : Prop :=
  ∀ ⦃ls x rest x' rest'⦄, R ls x rest → R ls x' rest' → x = x' ∧ rest = rest'

theorem unique_meaning (meaning : Lexeme → Option α) : Unique (Meaning meaning) := by
  rintro _ x rest x' rest' ⟨l, rfl, hx⟩ ⟨l', heq, hx'⟩
  cases heq
  rw [hx] at hx'
  cases hx'
  exact ⟨rfl, rfl⟩

/-- A relation that looks at one lexeme is told by its meaning. -/
theorem meaning_iff {meaning : Lexeme → Option α} (hnil : ∀ {x rest}, ¬ R [] x rest)
    (hcons : ∀ {l ls x rest}, R (l :: ls) x rest ↔ meaning l = some x ∧ ls = rest) :
    Meaning meaning ls x rest ↔ R ls x rest := by
  constructor
  · rintro ⟨l, rfl, hx⟩
    exact hcons.2 ⟨hx, rfl⟩
  · intro h
    cases ls with
    | nil => exact absurd h hnil
    | cons l ls =>
      obtain ⟨hx, rfl⟩ := hcons.1 h
      exact ⟨l, rfl, hx⟩

theorem unique_only (l : Lexeme) : Unique (Only l) := by
  rintro _ _ rest _ rest' rfl heq
  cases heq
  exact ⟨rfl, rfl⟩

theorem Unique.longest (hR : Unique R) : Unique (Longest R) := by
  rintro ls xs rest xs' rest' ⟨h, hend⟩ ⟨h', hend'⟩
  induction h generalizing xs' with
  | nil =>
    cases h' with
    | nil => exact ⟨rfl, rfl⟩
    | cons hx _ => exact absurd hx (hend _ _)
  | cons hx _ ih =>
    cases h' with
    | nil => exact absurd hx (hend' _ _)
    | cons hx' hxs' =>
      obtain ⟨rfl, rfl⟩ := hR hx hx'
      obtain ⟨rfl, rfl⟩ := ih hend hxs'
      exact ⟨rfl, rfl⟩

/-- Before a lexeme at which no item starts, all items have been read. -/
theorem longest_iff {l : Lexeme} (hl : ∀ {ls x rest}, ¬ R (l :: ls) x rest) :
    Longest R ls xs (l :: rest) ↔ Many R ls xs (l :: rest) :=
  and_iff_left fun _ _ => hl

end Grammar

/-! ### What a trial tells -/

open Grammar

/-- The lexemes from a place on. -/
def Token.lexemesFrom (ts : List Token) (i : Nat) : List Lexeme := (ts.map Token.lexeme).drop i

theorem Token.lexemesFrom_of_getElem? {ts : List Token} {i : Nat} {t : Token}
    (h : ts[i]? = some t) : lexemesFrom ts i = t.lexeme :: lexemesFrom ts (i + 1) := by
  obtain ⟨hi, rfl⟩ := List.getElem?_eq_some_iff.1 h
  rw [lexemesFrom, List.drop_eq_getElem_cons (by simpa using hi), List.getElem_map]
  rfl

theorem Token.lexemesFrom_of_le {ts : List Token} {i : Nat} (h : ts.length ≤ i) :
    lexemesFrom ts i = [] :=
  List.drop_eq_nil_of_le (by simpa using h)

variable {α β : Type} {R R' : Reading α} {S : α → Reading β} {ts : List Token} {i k : Nat}

/-- The trial at place `i` tells what a relation reads there: it finds that, and the place after
it is one from `k` on up to the end of the text, or there is nothing to be found. -/
inductive Trial.Tells (R : Reading α) (ts : List Token) (i k : Nat) : Trial α → Prop
  | found {x : α} {j : Nat} : k ≤ j → j ≤ ts.length →
      R (Token.lexemesFrom ts i) x (Token.lexemesFrom ts j) → Tells R ts i k (.found x j)
  | missed : (∀ x rest, ¬ R (Token.lexemesFrom ts i) x rest) → Tells R ts i k .missed

namespace Trial.Tells

theorem mono {a : Trial α} {k' : Nat} (h : a.Tells R ts i k) (hle : k' ≤ k) :
    a.Tells R ts i k' := by
  cases h with
  | found hk hj hx => exact .found (Nat.le_trans hle hk) hj hx
  | missed hnone => exact .missed hnone

theorem weaken {a : Trial α} (h : a.Tells R ts i (i + 1)) : a.Tells R ts i i :=
  h.mono (Nat.le_succ i)

theorem congrAt {a : Trial α} (h : a.Tells R ts i k)
    (hR : ∀ x rest, R (Token.lexemesFrom ts i) x rest ↔ R' (Token.lexemesFrom ts i) x rest) :
    a.Tells R' ts i k := by
  cases h with
  | found hk hj hx => exact .found hk hj ((hR _ _).1 hx)
  | missed hnone => exact .missed fun x rest hx => hnone x rest ((hR _ _).2 hx)

theorem congr {a : Trial α} (h : a.Tells R ts i k) (hR : ∀ ls x rest, R ls x rest ↔ R' ls x rest) :
    a.Tells R' ts i k :=
  h.congrAt (hR _)

/-- One rule after another, which is tried where the first one ends. -/
theorem bind {p : Descent α} {f : α → Descent β} (hp : (p ts i).Tells R ts i k) (hR : Unique R)
    (hf : ∀ x j, k ≤ j → j ≤ ts.length → R (Token.lexemesFrom ts i) x (Token.lexemesFrom ts j) →
      (f x ts j).Tells (S x) ts j j) :
    ((p >>= f) ts i).Tells (Then R S) ts i k := by
  simp only [Bind.bind]
  generalize p ts i = a at hp ⊢
  cases hp with
  | missed hnone => exact .missed fun _ _ ⟨x, mid, hx, _⟩ => hnone x mid hx
  | @found x j hk hj hx =>
    dsimp only
    have hafter := hf x j hk hj hx
    generalize f x ts j = b at hafter ⊢
    cases hafter with
    | found hle hlength hy => exact .found (Nat.le_trans hk hle) hlength ⟨x, _, hx, hy⟩
    | missed hnone =>
      -- The relation reads nothing but `x` before the part that is missing.
      refine .missed fun y rest ⟨x', mid, hx', hy⟩ => ?_
      obtain ⟨rfl, rfl⟩ := hR hx hx'
      exact hnone y rest hy

/-- A rule, and where it does not apply another. -/
theorem orElse {p q : Descent α} (hp : (p ts i).Tells R ts i k)
    (hfound : ∀ x rest, R (Token.lexemesFrom ts i) x rest → R' (Token.lexemesFrom ts i) x rest)
    (hq : (∀ x rest, ¬ R (Token.lexemesFrom ts i) x rest) → (q ts i).Tells R' ts i k) :
    ((p <|> q) ts i).Tells R' ts i k := by
  simp only [HOrElse.hOrElse, OrElse.orElse]
  generalize p ts i = a at hp ⊢
  cases hp with
  | found hk hj hx => exact .found hk hj (hfound _ _ hx)
  | missed hnone => exact hq hnone

/-- A rule whose reading is made something else of. -/
theorem map {p : Descent α} (hp : (p ts i).Tells R ts i k) (g : α → β) :
    ((do return g (← p) : Descent β) ts i).Tells
      (fun ls y rest => ∃ x, R ls x rest ∧ y = g x) ts i k := by
  simp only [Bind.bind]
  generalize p ts i = a at hp ⊢
  cases hp with
  | found hk hj hx => exact .found hk hj ⟨_, hx, rfl⟩
  | missed hnone => exact .missed fun _ rest ⟨x, hx, _⟩ => hnone x rest hx

theorem pure (x : α) (hi : i ≤ ts.length) :
    ((Pure.pure x : Descent α) ts i).Tells (Done x) ts i i :=
  .found (Nat.le_refl i) hi ⟨rfl, rfl⟩

theorem one (meaning : Lexeme → Option α) :
    (Descent.one meaning ts i).Tells (Meaning meaning) ts i (i + 1) := by
  unfold Descent.one
  split
  · next h =>
    rw [List.getElem?_eq_none_iff] at h
    refine .missed fun x rest ⟨l, heq, _⟩ => ?_
    rw [Token.lexemesFrom_of_le h] at heq
    cases heq
  · next t h =>
    have hfrom := Token.lexemesFrom_of_getElem? h
    have hi := (List.getElem?_eq_some_iff.1 h).1
    split
    · next hnone =>
      refine .missed fun x rest ⟨l, heq, hl⟩ => ?_
      rw [hfrom] at heq
      cases heq
      rw [hnone] at hl
      cases hl
    · next x hx => exact .found (Nat.le_refl _) hi ⟨t.lexeme, hfrom, hx⟩

theorem only (l : Lexeme) : (Descent.only l ts i).Tells (Only l) ts i (i + 1) := by
  refine (one _).congr fun ls _ rest => ⟨?_, fun h => ⟨l, h, if_pos rfl⟩⟩
  rintro ⟨l', rfl, hl⟩
  obtain ⟨rfl, -⟩ := Option.ite_none_right_eq_some.1 hl
  rfl

end Trial.Tells

/-- A repetition of items that use up tokens stops before it goes deeper than there are tokens left.
It reads all items there are. -/
theorem Descent.many_stops {item : Descent α} {depth : Nat}
    (hitem : ∀ j, i ≤ j → j ≤ ts.length → (item ts j).Tells R ts j (j + 1)) (hi : i ≤ ts.length)
    (hdepth : ts.length - i < depth) :
    ∃ xs j, many item depth ts i = .found xs j ∧ i + xs.length ≤ j ∧ j ≤ ts.length ∧
      Longest R (Token.lexemesFrom ts i) xs (Token.lexemesFrom ts j) := by
  induction depth generalizing i with
  | zero => omega
  | succ depth ih =>
    have hfirst := hitem i (Nat.le_refl i) hi
    unfold many
    generalize item ts i = a at hfirst ⊢
    cases hfirst with
    | missed hnone => exact ⟨[], i, rfl, Nat.le_refl i, hi, .nil, hnone⟩
    | @found x j hj hlength hx =>
      obtain ⟨xs, k, hmany, hk, hklength, hxs, hend⟩ :=
        ih (i := j) (fun j' hj' => hitem j' (by omega)) hlength (by omega)
      refine ⟨x :: xs, k, ?_, ?_, hklength, .cons hx hxs, hend⟩
      · simp only [Functor.map, hmany]
        rfl
      · rw [List.length_cons]
        omega

end PocketLisp
