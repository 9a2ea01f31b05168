import PocketLisp.Sink

/-!
# Sources of lines

A source hands out a text line by line. Each read may first show a prompt, and may fail.

## Main definitions

- `Read` — what one read of a source gives
- `LineSource` — the reads still to come, and where prompts go
- `LineSource.ofString`, `LineSource.ofBytes` — the lines of a text
- `LineSource.read` — one read
- `LineSource.size` — a bound on the characters still to come

## Main statements

- `LineSource.size_le_of_read` — no read adds to what is still to come
- `LineSource.size_lt_of_read` — a line handed out is taken from what is still to come

## Design notes

An empty line stands for the end of the input, and after its last read a source gives nothing
else. A prompt that cannot be shown makes the read fail before the line is taken.
-/

namespace PocketLisp

/-- What one read of a source gives. -/
inductive Read where
  /-- A line, as it stands: it may lack its line end or hold several. -/
  | line (text : String)
  | failure (reason : Failure)
  deriving Inhabited

/-- Where a source writes the prompt of a read. -/
inductive Prompting where
  /-- Nowhere. -/
  | silent
  /-- To the sink for prompts. -/
  | written
  /-- To the sink for prompts, which is then flushed. -/
  | flushed
  /-- To the sink for results, which is then flushed. -/
  | onOutput
  deriving DecidableEq, Inhabited

/-- A source of lines: the reads still to come, and where prompts go. -/
structure LineSource where
  reads : List Read
  prompting : Prompting
  deriving Inhabited

/-- Shows a prompt in front of a read. -/
def Prompting.ask (p : Prompting) (prompt : String) (c : Console) :
    Except Failure Unit × Console :=
  match p with
  | silent => (.ok (), c)
  | written =>
    let (shown, prompts) := c.prompts.write prompt
    (shown, { c with prompts })
  | flushed =>
    let (shown, prompts) := c.prompts.deliver prompt
    (shown, { c with prompts })
  | onOutput =>
    let (shown, out) := c.out.deliver prompt
    (shown, { c with out })

namespace LineSource

/-- The lines of a text. -/
def ofString (text : String) (prompting : Prompting) : LineSource :=
  ⟨(splitAfter '\n' text.toList).map fun line => .line (String.ofList line), prompting⟩

/-- The line that some bytes are, or a failure if they are not UTF-8. -/
def readOfBytes (bytes : ByteArray) : Read :=
  match String.fromUTF8? bytes with
  | some text => .line text
  | none => .failure .notUtf8

/-- The lines of a text given as bytes. A line that is not UTF-8 is a failing read. -/
def ofBytes (bytes : ByteArray) (prompting : Prompting) : LineSource :=
  ⟨(splitAfter 10 bytes.toList).map fun line => readOfBytes ⟨line.toArray⟩, prompting⟩

/-- Shows the prompt and takes the next line; the empty line at the end of the input. -/
def read (s : LineSource) (prompt : String) (c : Console) :
    Except Failure String × LineSource × Console :=
  match s.prompting.ask prompt c with
  | (.error f, c) => (.error f, s, c)
  | (.ok _, c) =>
    match s.reads with
    | [] => (.ok "", s, c)
    | .line text :: reads => (.ok text, { s with reads }, c)
    | .failure f :: reads => (.error f, { s with reads }, c)

/-- The characters that a read can give, with a line end that may have to be added. -/
def readSize : Read → Nat
  | .line text => text.length + 1
  | .failure _ => 0

/-- A bound on the characters that the source can still hand out. -/
def size (s : LineSource) : Nat := s.reads.foldr (fun r n => readSize r + n) 0

variable {s s' : LineSource} {prompt : String} {c c' : Console}

theorem size_le_of_read {r : Except Failure String} (h : s.read prompt c = (r, s', c')) :
    s'.size ≤ s.size := by
  unfold read at h
  split at h
  · cases h; exact Nat.le_refl _
  · split at h
    · cases h; exact Nat.le_refl _
    · next hreads => cases h; simp [size, hreads]
    · next hreads => cases h; simp [size, hreads]

theorem size_lt_of_read {text : String} (h : s.read prompt c = (.ok text, s', c'))
    (htext : text ≠ "") : s'.size + text.length < s.size := by
  unfold read at h
  split at h
  · cases h
  · split at h
    · cases h; exact absurd rfl htext
    · next hreads => cases h; simp [size, hreads, readSize]; omega
    · cases h

end LineSource

end PocketLisp
