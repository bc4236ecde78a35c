import BuildScript.Files.Error

/-!
# Outputs

What a program writes to is a `Sink`: three actions on a world of some kind. A write either
stores all its bytes, or stores some of them and fails.

* `Sink`: write, flush and close;
* `Sink.onFst`, `Sink.onSnd`: a sink of one half of a world made of two;
* `LimitedOutput`: an output in memory that takes a limited number of bytes.
-/

namespace BuildScript.Files

/-- An output, acting on a world. -/
structure Sink (ω : Type) where
  write : Bytes → ω → Except IoError Unit × ω
  flush : ω → Except IoError Unit × ω
  /-- What happens when the output is given up. Failures are not reported. -/
  close : ω → ω

namespace Sink

variable {ω α β : Type}

/-- Several writes, up to the first that fails. -/
def writeAll (sink : Sink ω) : List Bytes → ω → Except IoError Unit × ω
  | [], w => (.ok (), w)
  | bs :: rest, w =>
    match sink.write bs w with
    | (.ok _, w) => sink.writeAll rest w
    | (.error e, w) => (.error e, w)

def onFst (sink : Sink α) : Sink (α × β) where
  write bs w := let r := sink.write bs w.1; (r.1, (r.2, w.2))
  flush w := let r := sink.flush w.1; (r.1, (r.2, w.2))
  close w := (sink.close w.1, w.2)

def onSnd (sink : Sink β) : Sink (α × β) where
  write bs w := let r := sink.write bs w.2; (r.1, (w.1, r.2))
  flush w := let r := sink.flush w.2; (r.1, (w.1, r.2))
  close w := (w.1, sink.close w.2)

end Sink

/-! ## Outputs in memory -/

/-- An output that takes at most `limit` bytes. -/
structure LimitedOutput where
  limit : Option Nat
  failFlush : Bool
  stored : Bytes
  flushes : Nat

namespace LimitedOutput

def empty (limit : Option Nat) (failFlush : Bool) : LimitedOutput := ⟨limit, failFlush, [], 0⟩

/-- How many of `n` more bytes fit. -/
def room (o : LimitedOutput) (n : Nat) : Nat :=
  match o.limit with
  | none => n
  | some limit => min n (limit - o.stored.length)

/-- Stores what fits, and fails if that is not all. -/
def write (bs : Bytes) (o : LimitedOutput) : Except IoError Unit × LimitedOutput :=
  let fits := o.room bs.length
  (if fits = bs.length then .ok () else .error .writerFull,
    { o with stored := o.stored ++ bs.take fits })

/-- Flushes are counted, also those that fail. -/
def flush (o : LimitedOutput) : Except IoError Unit × LimitedOutput :=
  (if o.failFlush then .error .flushFailed else .ok (), { o with flushes := o.flushes + 1 })

def sink : Sink LimitedOutput := ⟨write, flush, id⟩

end LimitedOutput

end BuildScript.Files
