import BuildScript.Files.Output

/-!
# Buffers in front of outputs

A buffer is a part of the world that an output acts on. The output behind it is expected to
store all of a write or nothing: what it did not take stays in the buffer.

* `Sink.buffered`: writes reach the output when the buffer is full, on a flush and at the end;
* `Sink.lineBuffered`: whole lines also reach it at once.
-/

namespace BuildScript.Files

/-- A part of a world that can be looked at and replaced. -/
structure Slot (ω α : Type) where
  get : ω → α
  set : α → ω → ω

/-- The bytes that a buffered output to a file holds back. -/
def fileCapacity : Nat := 8192

/-- The bytes that a line buffered output holds back. -/
def lineCapacity : Nat := 1024

namespace Sink

variable {ω : Type}

/-- Writes what is in the buffer. -/
def pour (buffer : Slot ω Bytes) (sink : Sink ω) (w : ω) : Except IoError Unit × ω :=
  match buffer.get w with
  | [] => (.ok (), w)
  | held =>
    match sink.write held w with
    | (.ok _, w) => (.ok (), buffer.set [] w)
    | (.error e, w) => (.error e, w)

/-- A write into the buffer. What does not fit makes room first, and what would fill the
whole buffer goes past it. -/
def fill (capacity : Nat) (buffer : Slot ω Bytes) (sink : Sink ω) (bs : Bytes) (w : ω) :
    Except IoError Unit × ω :=
  let spare := capacity - (buffer.get w).length
  if bs.length < spare then (.ok (), buffer.set (buffer.get w ++ bs) w)
  else
    match if spare < bs.length then sink.pour buffer w else (.ok (), w) with
    | (.error e, w) => (.error e, w)
    | (.ok _, w) =>
      if capacity ≤ bs.length then sink.write bs w
      else (.ok (), buffer.set (buffer.get w ++ bs) w)

/-- A flush of the buffer and then of the output. -/
def pourAndFlush (buffer : Slot ω Bytes) (sink : Sink ω) (w : ω) : Except IoError Unit × ω :=
  match sink.pour buffer w with
  | (.error e, w) => (.error e, w)
  | (.ok _, w) => sink.flush w

/-- An output with a buffer in front. When it is given up, the buffer is written once more
and what the output does not take is lost. -/
def buffered (capacity : Nat) (buffer : Slot ω Bytes) (sink : Sink ω) : Sink ω where
  write := sink.fill capacity buffer
  flush := sink.pourAndFlush buffer
  close w := sink.close (buffer.set [] (sink.pour buffer w).2)

def newline : UInt8 := 0x0A

/-- The bytes up to the last newline, and those behind it. -/
def throughLastLine (bs : Bytes) : Bytes × Bytes :=
  let tail := (bs.reverse.takeWhile (· != newline)).reverse
  (bs.take (bs.length - tail.length), tail)

/-- A write through a line buffer: whole lines go on, the rest is held back. -/
def fillLines (capacity : Nat) (buffer : Slot ω Bytes) (sink : Sink ω) (bs : Bytes) (w : ω) :
    Except IoError Unit × ω :=
  let (lines, tail) := throughLastLine bs
  if lines.isEmpty then
    match if (buffer.get w).getLast? = some newline then sink.pour buffer w else (.ok (), w) with
    | (.error e, w) => (.error e, w)
    | (.ok _, w) => sink.fill capacity buffer bs w
  else
    let sent :=
      if (buffer.get w).isEmpty then sink.write lines w
      else
        match sink.fill capacity buffer lines w with
        | (.error e, w) => (.error e, w)
        | (.ok _, w) => sink.pour buffer w
    match sent with
    | (.error e, w) => (.error e, w)
    | (.ok _, w) => sink.fill capacity buffer tail w

/-- An output with a line buffer in front that outlives it: giving the output up leaves the
buffer as it is. -/
def lineBuffered (capacity : Nat) (buffer : Slot ω Bytes) (sink : Sink ω) : Sink ω where
  write := sink.fillLines capacity buffer
  flush := sink.pourAndFlush buffer
  close w := w

end Sink

end BuildScript.Files
