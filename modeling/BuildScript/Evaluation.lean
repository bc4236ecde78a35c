import BuildScript.Session

/-!
# Evaluating a build script

A script is run once, with its rules going to one output and what it touches told to one
parent.

* `Options`: what to run and where its rules go;
* `Channels.evaluate`: a script that has been read, in any world;
* `execute`: a script by its path, on a machine.

Nothing here depends on what a script is made of: `Channels.evaluateRun` and `executeRun` take any
steps in its place.
-/

namespace BuildScript

open Files Deps Script

/-- What to run and where its rules go. -/
structure Options where
  script : Bytes
  output : Option Bytes
  arguments : List String

def dash : Bytes := [0x2D]

/-- Whether a path stands for the standard output: a dash, whatever slashes and dots follow
it. -/
def isDash (path : Bytes) : Bool :=
  !Files.isAbsolute path &&
    match names path with
    | first :: rest => first == dash && rest.all (· == dotName)
    | [] => false

/-- The output file, unless rules go to the standard output. -/
def Options.outputFile (o : Options) : Option Bytes := o.output.filter fun p => !isDash p

/-- What is run of a script that has been read, with so many nested steps at most. -/
def Options.program (o : Options) (steps : Nat) (source : Bytes) : Run Unit :=
  Environment.run (Evaluator.host steps) o.script source o.arguments

/-- Why a script was not evaluated to its end. -/
inductive EvaluationError where
  | openOutput (path : Bytes) (e : OsError)
  | readScript (path : Bytes) (e : OsError)
  | script (f : Fault)
  | rules (e : RuleError)
  deriving DecidableEq, Repr

def EvaluationError.message : EvaluationError → String
  | openOutput path e =>
    "failed to open output file '" ++ Utf8.decodeLossy path ++ "': " ++ e.message
  | readScript path e => "cannot read '" ++ Utf8.decodeLossy path ++ "': " ++ e.message
  | script f => f.message
  | rules e => e.message

/-- What becomes of an evaluation. -/
inductive Ending where
  /-- The script has run, and so many rules have been written. -/
  | complete (rules : Nat)
  | failed (e : EvaluationError)
  /-- The script does not come to an end within the steps that it was given. -/
  | unfinished
  deriving DecidableEq, Repr

namespace Channels

variable {ω : Type} (c : Channels ω)

/-- Gives up the rules and then the records. -/
def giveUp (ending : Ending) (warnings : List Warning) (w : ω) : Ending × List Warning × ω :=
  let r := c.deps.drop (c.rules.close w)
  (ending, warnings ++ r.1, r.2)

/-- Closes the rules after a script that ran to its end, and tells the parent of the output. -/
def complete (o : Options) (s : Session ω) : Ending × List Warning × ω :=
  match s.stream.finish c.rules s.world with
  | (.error e, _, w) => c.giveUp (.failed (.rules e)) s.warnings w
  | (.ok count, stream, w) =>
    let s : Session ω := { s with stream := stream, world := w }
    let s := match o.outputFile with
      | some path => c.reportProduct path s
      | none => s
    let flushed := c.deps.flush s.world
    c.giveUp (.complete count) s.warnings flushed.2

/-- What comes after a script, whatever became of it. -/
def conclude (o : Options) (outcome : Outcome Unit) (s : Session ω) :
    Ending × List Warning × ω :=
  match outcome with
  | .value _ => c.complete o s
  | .raised v => c.giveUp (.failed (.script v.raised)) s.warnings s.world
  | .unfinished => c.giveUp .unfinished s.warnings s.world

/-- Opens the list of rules, makes the steps of a script and closes the list behind them. -/
def evaluateRun (script : Run Unit) (o : Options) (w : ω) : Ending × List Warning × ω :=
  match RuleStream.begin c.rules w with
  | (.error e, w) => c.giveUp (.failed (.rules e)) [] w
  | (.ok stream, w) =>
    let r := c.perform script (Environment.start c.style) ⟨w, stream, []⟩
    c.conclude o r.1.1 r.2

/-- Evaluates the source of a script with so many nested steps at most. -/
def evaluate (steps : Nat) (o : Options) (source : Bytes) (w : ω) : Ending × List Warning × ω :=
  c.evaluateRun (o.program steps source) o w

end Channels

/-! ## On a machine -/

/-- How deep walks go on a machine: deeper than any path that its system takes. -/
def machineDepth : Nat := maxPath

/-- A script that was read on a machine, and where its rules and records go. -/
structure Prepared where
  source : Bytes
  channels : Channels Machine
  warnings : List Warning
  machine : Machine

/-- Reads the script, opens the output and then looks for the parent. -/
def prepare (o : Options) (deps : Option Bytes) (m : Machine) :
    Except EvaluationError Prepared := do
  let source ← (m.files.read o.script).mapError (.readScript o.script)
  let (rules, m) ← match o.outputFile with
    | none => pure (Machine.standardOutput, m)
    | some path => do
      let (n, m) ← (m.create path).mapError (.openOutput path)
      pure (Machine.fileOutput n, m)
  let (sender, warnings, m) := Sender.ofVariable deps m
  return ⟨source, ⟨.posix, Machine.files, rules, sender, machineDepth⟩, warnings, m⟩

/-- Reads a source on a machine, and makes the steps that it stands for. -/
def executeRun (script : Bytes → Run Unit) (o : Options) (deps : Option Bytes) (m : Machine) :
    Ending × List Warning × Machine :=
  match prepare o deps m with
  | .error e => (.failed e, [], m)
  | .ok p =>
    let r := p.channels.evaluateRun (script p.source) o p.machine
    (r.1, p.warnings ++ r.2.1, r.2.2)

/-- Evaluates a script on a machine, with so many nested steps at most. -/
def execute (steps : Nat) (o : Options) (deps : Option Bytes) (m : Machine) :
    Ending × List Warning × Machine :=
  executeRun (o.program steps) o deps m

end BuildScript
