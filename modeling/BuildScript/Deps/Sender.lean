import BuildScript.Text.Utf8
import BuildScript.Deps.Record
import BuildScript.Files.Descriptors

/-!
# Sending dependency records

A parent that wants to know which files a script reads and writes leaves a descriptor open
and names its number in `BB_DEPS`. Without one, every send does nothing and succeeds. What
goes wrong is warned about and has no other consequence.

* `Sender`: where records go, if anywhere;
* `descriptorNumber?`: the numbers that `BB_DEPS` can name;
* `Sender.ofVariable`: the sender for a value of `BB_DEPS`.
-/

namespace BuildScript.Deps

open Files

/-! ## Warnings -/

/-- What is warned about. -/
inductive Warning where
  | invalidNumber
  | cannotReport
  | inputLost
  | productLost
  | flushFailed
  deriving DecidableEq, Repr

def Warning.message : Warning → String
  | invalidNumber => "ignoring invalid BB_DEPS value"
  | cannotReport => "cannot report dependencies"
  | inputLost => "failed to report input"
  | productLost => "failed to report output"
  | flushFailed => "failed to flush dependency records"

/-! ## Senders -/

/-- Where records go, if anywhere. -/
structure Sender (ω : Type) where
  sink : Option (Sink ω)

namespace Sender

variable {ω α : Type}

def inert : Sender ω := ⟨none⟩

def toSink (sink : Sink ω) : Sender ω := ⟨some sink⟩

/-- Whether records get anywhere. -/
def isAttached (s : Sender ω) : Bool := s.sink.isSome

/-- A description for people. -/
def describe (s : Sender ω) : String :=
  "DepSender \x7b has_parent: " ++ (if s.isAttached then "true" else "false") ++ " \x7d"

/-- Sends a record: its header and then its name. -/
def send (s : Sender ω) (r : Record) (w : ω) : Except IoError Unit × ω :=
  match s.sink with
  | none => (.ok (), w)
  | some sink => sink.writeAll [r.header, r.wireName] w

def flush (s : Sender ω) (w : ω) : Except IoError Unit × ω :=
  match s.sink with
  | none => (.ok (), w)
  | some sink => sink.flush w

/-- Gives the sender up: a last flush, and then the output is closed. -/
def drop (s : Sender ω) (w : ω) : List Warning × ω :=
  match s.sink with
  | none => ([], w)
  | some sink =>
    match sink.flush w with
    | (.ok _, w) => ([], sink.close w)
    | (.error _, w) => ([.flushFailed], sink.close w)

/-- Takes the output out of a sender. What is left of the sender is dropped without it. -/
def release (s : Sender ω) (w : ω) : Option (Sink ω) × List Warning × ω :=
  let left := { s with sink := none }
  (s.sink, left.drop w)

/-- The same sender around the output that was taken out of it. -/
def rewrap (s : Sender ω) (w : ω) : Sender ω × List Warning × ω :=
  match s.release w with
  | (some sink, r) => (toSink sink, r)
  | (none, r) => (inert, r)

end Sender

/-! ## Attaching -/

/-- The highest number that a descriptor can have. -/
def maxDescriptor : Nat := 2147483647

def plus : Char := '+'

/-- The value of a text of decimal digits, of which there is at least one. -/
def digits? (cs : List Char) : Option Nat :=
  if cs.isEmpty then none
  else cs.foldlM (fun n c => if c.isDigit then some (10 * n + (c.toNat - 48)) else none) 0

/-- The number of a descriptor: decimal digits, with a `+` before them or not and blanks at
both ends or not, for a number from 1 on that a descriptor can have. -/
def descriptorNumber? (text : String) : Option Nat :=
  let cs := Utf8.trim text.toList
  let digits := if cs.head? = some plus then cs.tail else cs
  (digits? digits).filter fun n => 0 < n && n ≤ maxDescriptor

namespace Sender

/-- Takes over a descriptor that is open for writing and makes it append. -/
def attach? (n : Nat) (m : Machine) : Option (Sender Machine × Machine) :=
  match m.descriptor? n with
  | none => none
  | some d =>
    if d.access.canWrite then
      some (toSink (Machine.recordOutput n), m.replace n { d with append := true })
    else none

/-- The sender for a value of `BB_DEPS`, and what there is to warn about. -/
def ofText (value : Option String) (m : Machine) : Sender Machine × List Warning × Machine :=
  match value with
  | none => (inert, [], m)
  | some text =>
    match descriptorNumber? text with
    | none => (inert, [.invalidNumber], m)
    | some n =>
      match attach? n m with
      | none => (inert, [.cannotReport], m)
      | some (sender, m) => (sender, [], m)

/-- The sender for what the environment has for `BB_DEPS`. A value that is not text is like
none. -/
def ofVariable (value : Option Bytes) (m : Machine) : Sender Machine × List Warning × Machine :=
  ofText (value.bind Utf8.decode?) m

end Sender

end BuildScript.Deps
