import BuildScript.Rules.Rule
import BuildScript.Files.Output

/-!
# The stream of rules

Rules are written as they are made, as the elements of one list, a line for each:

    [
    {"inputs":["a.c"],"task":["cc","-c","a.c"],"outputs":["a.o"]},
    {"inputs":["a.o"],"task":["ld","a.o"],"outputs":["app"]}
    ]

* `RuleStream.begin`: opens the list on an output;
* `RuleStream.add`: one more rule;
* `RuleStream.finish`: closes the list. It is closed once; later calls only flush.
-/

namespace BuildScript

open Files

/-- Why a rule is not written, or the list not closed. -/
inductive RuleError where
  /-- The output failed between rules. -/
  | io (e : IoError)
  /-- The output failed within a rule. -/
  | encode (e : IoError)
  /-- The list is closed. -/
  | finished
  deriving DecidableEq, Repr

def RuleError.message : RuleError → String
  | io e => "failed to write rules: " ++ e.message
  | encode e => "failed to encode rule: " ++ e.message
  | finished => "rule output already finished"

/-- How far a list of rules has come. -/
structure RuleStream where
  count : Nat
  finished : Bool
  deriving DecidableEq, Repr

namespace RuleStream

def opening : Bytes := Bytes.ofAscii "[\n"
def separator : Bytes := Bytes.ofAscii ",\n"
def lastLineEnd : Bytes := Bytes.ofAscii "\n"
def closing : Bytes := Bytes.ofAscii "]\n"

variable {ω : Type}

/-- A write of what stands around the rules. -/
def put (sink : Sink ω) (bs : Bytes) (w : ω) : Except RuleError Unit × ω :=
  let r := sink.write bs w
  (r.1.mapError .io, r.2)

/-- Opens the list. -/
def begin (sink : Sink ω) (w : ω) : Except RuleError RuleStream × ω :=
  let r := put sink opening w
  (r.1.map fun _ => ⟨0, false⟩, r.2)

/-- Writes a rule, behind a comma if it is not the first. -/
def add (s : RuleStream) (sink : Sink ω) (rule : Rule) (w : ω) :
    Except RuleError Unit × RuleStream × ω :=
  if s.finished then (.error .finished, s, w)
  else
    match if 0 < s.count then put sink separator w else (.ok (), w) with
    | (.error e, w) => (.error e, s, w)
    | (.ok _, w) =>
      match sink.write rule.encode w with
      | (.error e, w) => (.error (.encode e), s, w)
      | (.ok _, w) => (.ok (), { s with count := s.count + 1 }, w)

/-- Closes the list if it is open, and flushes. Tells how many rules there are. -/
def finish (s : RuleStream) (sink : Sink ω) (w : ω) : Except RuleError Nat × RuleStream × ω :=
  let closed : Except RuleError Unit × ω :=
    if s.finished then (.ok (), w)
    else
      match if 0 < s.count then put sink lastLineEnd w else (.ok (), w) with
      | (.error e, w) => (.error e, w)
      | (.ok _, w) => put sink closing w
  match closed with
  | (.error e, w) => (.error e, s, w)
  | (.ok _, w) =>
    let s := { s with finished := true }
    match sink.flush w with
    | (.error e, w) => (.error (.io e), s, w)
    | (.ok _, w) => (.ok s.count, s, w)

end RuleStream

end BuildScript
