import PocketLisp.Error
import PocketLisp.Text.Lines

/-!
# Sinks

Where text is written to. A sink may take a limited number of bytes, and may fail to pass on
what it holds.

## Main definitions

- `Sink` — the bytes written so far, and what the sink still does
- `Sink.write`, `Sink.flush` — the two operations
- `Sink.deliver` — one after the other
- `Console` — the sink for results beside the sink for prompts

## Main statements

- `Sink.write_of_room_eq_none` — a sink without a limit takes every text whole

## Design notes

A write that does not fit is cut at the limit: what fits is written, and the write fails.
-/

namespace PocketLisp

/-- A sink for text. -/
structure Sink where
  /-- The bytes written so far. -/
  written : ByteArray
  /-- How many bytes the sink still takes, if that is limited. -/
  room : Option Nat
  /-- Whether every flush fails. -/
  flushFails : Bool
  deriving Inhabited

namespace Sink

/-- A sink without contents that never fails. -/
def unlimited : Sink := ⟨.empty, none, false⟩

/-- A sink without contents that takes `room` bytes in all. -/
def limited (room : Nat) : Sink := ⟨.empty, some room, false⟩

/-- Writes a text. What exceeds the room of the sink is dropped, and then the write fails. -/
def write (s : Sink) (text : String) : Except Failure Unit × Sink :=
  let bytes := text.toUTF8
  match s.room with
  | none => (.ok (), { s with written := s.written ++ bytes })
  | some room =>
    if bytes.size ≤ room then
      (.ok (), { s with written := s.written ++ bytes, room := some (room - bytes.size) })
    else
      (.error .sinkClosed,
        { s with written := s.written ++ bytes.extract 0 room, room := some 0 })

/-- Passes on what the sink holds. The bytes written stay, whether or not it succeeds. -/
def flush (s : Sink) : Except Failure Unit :=
  if s.flushFails then .error .flushFailed else .ok ()

/-- Writes a text and passes it on. -/
def deliver (s : Sink) (text : String) : Except Failure Unit × Sink :=
  match s.write text with
  | (.ok _, s) => (s.flush, s)
  | (.error f, s) => (.error f, s)

/-- The text written so far. -/
def text (s : Sink) : String := decodeUtf8 s.written

theorem write_of_room_eq_none {s : Sink} (h : s.room = none) (text : String) :
    s.write text = (.ok (), { s with written := s.written ++ text.toUTF8 }) := by
  simp [write, h]

end Sink

/-- The sink for results beside the sink for prompts. -/
structure Console where
  out : Sink
  prompts : Sink
  deriving Inhabited

/-- Two sinks without contents that never fail. -/
def Console.unlimited : Console := ⟨.unlimited, .unlimited⟩

end PocketLisp
