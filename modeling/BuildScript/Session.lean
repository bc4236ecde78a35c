import BuildScript.Deps.Sender
import BuildScript.Rules.Stream
import BuildScript.Script.Environment

/-!
# Sessions

A session connects scripts to the world: it walks directories, reads modules, writes rules and
tells the parent about every directory listed and every file read. Telling is all that the
parent has to do with it: what goes wrong there is warned about and changes nothing else.

* `Channels`: the parts of a world that a session uses;
* `Session`: the world, how far the rules have come, and the warnings so far;
* `Channels.answers`: the replies to what scripts ask for;
* `Channels.perform`, `Channels.runScript`: steps of scripts.
-/

namespace BuildScript

open BuildScript.Path Files Deps Script

/-- The parts of a world that a session uses. -/
structure Channels (ω : Type) where
  style : Style
  files : ω → FileSystem
  rules : Sink ω
  deps : Sender ω
  /-- How deep a walk through directories may go. -/
  depth : Nat

structure Session (ω : Type) where
  world : ω
  stream : RuleStream
  warnings : List Warning

namespace Channels

variable {ω α : Type} (c : Channels ω)

/-! ## Telling the parent -/

/-- Sends a record. If that fails, the session only gets a warning. -/
def report (r : Record) (warning : Warning) (s : Session ω) : Session ω :=
  match c.deps.send r s.world with
  | (.ok _, w) => { s with world := w }
  | (.error _, w) => { s with world := w, warnings := s.warnings ++ [warning] }

def reportInput (name : Bytes) : Session ω → Session ω := c.report (.input name) .inputLost

def reportProduct (name : Bytes) : Session ω → Session ω :=
  c.report (.product name) .productLost

/-! ## Replies -/

/-- The paths that a pattern finds. Every directory listed on the way is told. -/
def expand (pattern : Bytes) (s : Session ω) : Option (List Bytes) × Session ω :=
  match Glob.walk (c.files s.world).list c.style c.depth pattern with
  | none => (none, s)
  | some events =>
    (some (Glob.foundPaths events),
      (Glob.listedDirs events).foldl (fun s dir => c.reportInput dir s) s)

/-- The source of a module. A file that was read is told. -/
def load (path : Bytes) (s : Session ω) : Except OsError Bytes × Session ω :=
  match (c.files s.world).read path with
  | .ok source => (.ok source, c.reportInput path s)
  | .error e => (.error e, s)

/-- Writes a rule. -/
def emit (rule : Rule) (s : Session ω) : Except RuleError Unit × Session ω :=
  let r := s.stream.add c.rules rule s.world
  (r.1, { s with stream := r.2.1, world := r.2.2 })

/-- The replies to what scripts ask for. -/
def answers : Action.Answers (Session ω)
  | .expand pattern, s => c.expand pattern s
  | .probe path, s => ((c.files s.world).canOpen path, s)
  | .load path, s => c.load path s
  | .emit rule, s => c.emit rule s
  | .report path, s => ((), c.reportInput path s)

/-! ## Steps of scripts -/

/-- A step of a script, on a store and a session. -/
def perform (x : Run α) (store : Store) (s : Session ω) : (Outcome α × Store) × Session ω :=
  (x store).run c.answers s

/-- Runs a script with so many nested steps at most. -/
def runScript (steps : Nat) (script source : Bytes) (arguments : List String) (store : Store)
    (s : Session ω) : (Outcome Unit × Store) × Session ω :=
  c.perform (Environment.run (Evaluator.host steps) script source arguments) store s

end Channels

end BuildScript
