import BuildScript.Deps.Record

/-!
# Reading records from a stream

A reader hands out its bytes in pieces of any size. One read call gives at most the rest of
one piece; it may also be interrupted, fail, or tell the end.

* `readFull`: reads until a number of bytes is there, starting over after interruptions;
* `readRecord`: the next record, nothing at a clean end.
-/

namespace BuildScript.Deps

/-- What a read call meets. -/
inductive Piece where
  | data (bs : Bytes)
  /-- This call is interrupted and can be made again. -/
  | interrupted
  | broken
  deriving DecidableEq, Repr

/-- What is still to be read. An empty piece of data tells the end once; behind the last
piece every call does. -/
abbrev Source := List Piece

/-- Reads until `want` bytes are there or the source tells the end. -/
def readFull (want : Nat) (source : Source) : Except IoError Bytes × Source :=
  match want, source with
  | 0, source => (.ok [], source)
  | _ + 1, [] => (.ok [], [])
  | _ + 1, .data [] :: rest => (.ok [], rest)
  | want + 1, .data (b :: bs) :: rest =>
    let piece := (b :: bs).take (want + 1)
    let left := (b :: bs).drop (want + 1)
    let r := readFull (want + 1 - piece.length) (if left.isEmpty then rest else .data left :: rest)
    (r.1.map (piece ++ ·), r.2)
  | want + 1, .interrupted :: rest => readFull (want + 1) rest
  | _ + 1, .broken :: rest => (.error .readerBroke, rest)
termination_by (want, source.length)
decreasing_by
  · left
    simp only [List.take_succ_cons, List.length_cons]
    omega
  · right
    exact Nat.lt_succ_self _

/-- The next record of a source, nothing at a clean end, and what is left of the source. -/
def readRecord (source : Source) : Except ReadError (Option Record) × Source :=
  match readFull headerLength source with
  | (.error e, source) => (.error (.io e), source)
  | (.ok header, source) =>
    if header.isEmpty then (.ok none, source)
    else if header.length < headerLength then
      (.error (.truncated headerLength header.length), source)
    else
      let fields := ofHeader header
      match readFull fields.2 source with
      | (.error e, source) => (.error (.io e), source)
      | (.ok name, source) =>
        if name.length < fields.2 then
          (.error (.truncated (headerLength + fields.2) (headerLength + name.length)), source)
        else (.ok (some { fields.1 with name := name }), source)

/-- As many reads as asked for, one after the other. -/
def readRecords : Nat → Source → List (Except ReadError (Option Record))
  | 0, _ => []
  | n + 1, source => let r := readRecord source; r.1 :: readRecords n r.2

end BuildScript.Deps
