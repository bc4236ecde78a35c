import BuildScript.Files.Tree
import BuildScript.Files.Buffered

/-!
# Open files

A machine is a file system with a table of descriptors. Opening a file takes the lowest
number that is free. A descriptor that appends writes at the end of the file, wherever it
stands; any other writes where it stands, over what is there.

* `Machine.create`: an empty file, open for writing;
* `Machine.writeTo`, `Machine.close`: using and giving up a number;
* `Machine.sink`: the output behind a number;
* `Machine.fileOutput`, `Machine.standardOutput`, `Machine.recordOutput`: with their buffers.
-/

namespace BuildScript.Files

/-- What a descriptor was opened for. -/
inductive Access where
  | read
  | write
  | readWrite
  deriving DecidableEq, Repr

def Access.canWrite : Access → Bool
  | read => false
  | write | readWrite => true

/-- An open file. -/
structure Descriptor where
  location : Location
  access : Access
  append : Bool
  offset : Nat
  deriving DecidableEq, Repr

/-- Files, descriptors by their numbers, and what is held back in front of the rules and of
the dependency records. -/
structure Machine where
  files : FileSystem
  table : List (Nat × Descriptor)
  ruleBuffer : Bytes
  recordBuffer : Bytes

/-- Bytes put over the content of a file from an offset on. A gap is filled with zeros. -/
def overwrite (content : Bytes) (offset : Nat) (bs : Bytes) : Bytes :=
  content.take offset ++ List.replicate (offset - content.length) 0 ++ bs ++
    content.drop (offset + bs.length)

namespace Machine

/-! ## The table -/

/-- A machine with files and open descriptors and nothing held back. -/
def start (files : FileSystem) (table : List (Nat × Descriptor)) : Machine :=
  ⟨files, table, [], []⟩

def descriptor? (m : Machine) (n : Nat) : Option Descriptor := m.table.lookup n

def isOpen (m : Machine) (n : Nat) : Bool := (m.descriptor? n).isSome

/-- The lowest number that is not open. -/
def lowestFree (m : Machine) : Nat :=
  ((List.range m.table.length).find? fun n => !m.isOpen n).getD m.table.length

/-- Puts a descriptor in the place of the one that a number has, if it has one. -/
def replace (m : Machine) (n : Nat) (d : Descriptor) : Machine :=
  { m with table := m.table.map fun e => if e.1 == n then (n, d) else e }

def close (m : Machine) (n : Nat) : Machine :=
  { m with table := m.table.filter fun e => e.1 != n }

/-! ## Files behind numbers -/

/-- An empty file at a path, open for writing under the lowest free number. -/
def create (m : Machine) (path : Bytes) : Except OsError (Nat × Machine) :=
  (m.files.create path).map fun (location, files) =>
    let n := m.lowestFree
    (n, { m with files := files, table := m.table ++ [(n, ⟨location, .write, false, 0⟩)] })

/-- Writes bytes to the file behind a number: all of them or, if it cannot be written to,
none. -/
def writeTo (m : Machine) (n : Nat) (bs : Bytes) : Except IoError Unit × Machine :=
  match m.descriptor? n with
  | none => (.error (.os .badDescriptor), m)
  | some d =>
    if d.access.canWrite then
      let content := m.files.contentAt d.location
      let offset := if d.append then content.length else d.offset
      let files := m.files.setContentAt d.location (overwrite content offset bs)
      (.ok (), { m.replace n { d with offset := offset + bs.length } with files := files })
    else (.error (.os .badDescriptor), m)

/-- The output behind a number. -/
def sink (n : Nat) : Sink Machine where
  write bs m := m.writeTo n bs
  flush m := (.ok (), m)
  close m := m.close n

/-- The output behind the number of the standard output, which takes everything if the number
is not open. -/
def lenientSink (n : Nat) : Sink Machine where
  write bs m := (.ok (), (m.writeTo n bs).2)
  flush m := (.ok (), m)
  close m := m

/-! ## Outputs with buffers -/

def ruleSlot : Slot Machine Bytes := ⟨ruleBuffer, fun bs m => { m with ruleBuffer := bs }⟩

def recordSlot : Slot Machine Bytes := ⟨recordBuffer, fun bs m => { m with recordBuffer := bs }⟩

/-- The number of the standard output. -/
def stdout : Nat := 1

/-- Rules on their way to a file. -/
def fileOutput (n : Nat) : Sink Machine := (sink n).buffered fileCapacity ruleSlot

/-- Rules on their way to the standard output. -/
def standardOutput : Sink Machine := (lenientSink stdout).lineBuffered lineCapacity ruleSlot

/-- Dependency records on their way to whoever reads them. -/
def recordOutput (n : Nat) : Sink Machine := (sink n).buffered fileCapacity recordSlot

/-- What happens at the very end: the buffer of the standard output is written. -/
def exit (m : Machine) : Machine := ((lenientSink stdout).pour ruleSlot m).2

end Machine

end BuildScript.Files
