import BuildScript.CommandLine
import BuildScript.Files.Known

/-!
# The program

The program runs a command line on what it finds out about the files around it: a file is
looked at when a script asks for it. Directories are not looked at. The first time that a
script asks for the paths of a pattern, the paths below the current directory are read from
the standard input, one a line, with a slash at the end of directories.

Rules and records are kept until the script has come to its end, and written then.
-/

namespace BuildScript.Main

open Files Deps Script

/-- How many nested steps a script may make. -/
def steps : Nat := 1000000000

/-- A path as the system takes it. -/
def systemPath (path : Bytes) : String := Utf8.decodeLossy path

/-! ## Looking at files -/

/-- The number of the error of a system that is told to read a directory. -/
def readOfDirectory : UInt32 := 21

/-- Takes note of what a path leads to. -/
def look (fs : FileSystem) (path : Bytes) : IO FileSystem := do
  try
    let content ← IO.FS.readBinFile (systemPath path)
    return fs.noteFile path content.toList
  catch
    | .inappropriateType _ code _ => return if code = readOfDirectory then fs.noteDir path else fs
    | _ => return fs

/-- Takes note of all that is on the way to a path. -/
def lookAlong (fs : FileSystem) (path : Bytes) : IO FileSystem :=
  (ancestors path).foldlM look fs

/-- The lines of a text. -/
def lines (text : Bytes) : List Bytes := (text.splitOnP (· == Sink.newline)).filter (!·.isEmpty)

/-- Takes note of the paths that the standard input lists. -/
def lookAtList (fs : FileSystem) : IO FileSystem := do
  let text ← IO.FS.readBinFile "/dev/stdin"
  return fs.notePaths (lines text.toList)

/-- What has to be found out before a request can be answered. -/
def prepareFor (isListed : IO.Ref Bool) (q : Request) (fs : FileSystem) : IO FileSystem := do
  match q with
  | .probe path | .load path => lookAlong fs path
  | .expand _ =>
    if ← isListed.get then return fs
    isListed.set true
    lookAtList fs
  | _ => return fs

/-- An action, with the files being looked at on the way. -/
def drive {α : Type} (c : Channels Machine) (isListed : IO.Ref Bool) :
    Action α → Session Machine → IO (α × Session Machine)
  | .done a, s => return (a, s)
  | .ask q next, s => do
    let files ← prepareFor isListed q s.world.files
    let r := c.answers q { s with world := { s.world with files := files } }
    drive c isListed (next r.1) r.2

/-! ## Descriptors -/

/-- Where a descriptor is found among the files. -/
def device (n : Nat) : Bytes := Bytes.ofAscii ("/dev/fd/" ++ toString n)

/-- The files of the standard descriptors and of the one that the parent left open, if it
did, and their table. -/
def openDescriptors (deps : Option String) (fs : FileSystem) : IO Machine := do
  let named := (deps.bind descriptorNumber?).toList.filter (Machine.stdout < ·)
  let inherited ← named.filterM fun n => do
    try
      let _ ← IO.FS.Handle.mk (systemPath (device n)) .append
      return true
    catch _ => return false
  let numbers := [0, 1, 2] ++ inherited.filter (2 < ·)
  let fs := numbers.foldl (fun fs n => fs.noteFile (device n) []) fs
  return Machine.start fs (numbers.map fun n =>
    (n, ⟨fs.place (device n), if n = 0 then .read else .write, false, 0⟩))

/-- What was written through a descriptor. -/
def written (m : Machine) (n : Nat) : Bytes := m.files.contentAt (m.files.place (device n))

/-! ## Running -/

/-- Writes down what a machine has for the outside. -/
def commit (o : Options) (m : Machine) : IO Unit := do
  match o.outputFile with
  | some path =>
    match m.files.read path with
    | .ok content => IO.FS.writeBinFile (systemPath path) ⟨content.toArray⟩
    | .error _ => pure ()
  | none =>
    let out ← IO.getStdout
    out.write ⟨(written m Machine.stdout).toArray⟩
    out.flush

/-- Hands the records to the parent. -/
def sendRecords (deps : Option String) (m : Machine) : IO Unit := do
  match deps.bind descriptorNumber? with
  | none => return
  | some n =>
    let records := written m n
    unless records.isEmpty || n ≤ Machine.stdout do
      let out ← IO.FS.Handle.mk (systemPath (device n)) .append
      out.write ⟨records.toArray⟩

/-- What becomes of a script that has been read. -/
def evaluate (o : Options) (p : Prepared) : IO (Ending × List Warning × Machine) := do
  let c := p.channels
  match RuleStream.begin c.rules p.machine with
  | (.error e, m) => return c.giveUp (.failed (.rules e)) [] m
  | (.ok stream, m) =>
    let script := o.program steps p.source
    let r ← drive c (← IO.mkRef false) (script (Environment.start c.style)) ⟨m, stream, []⟩
    return c.conclude o r.1.1 r.2

/-- Runs a script and tells why it fails, if it does. -/
def runScript (o : Options) : IO (Option CommandLine.Complaint) := do
  let deps ← IO.getEnv "BB_DEPS"
  let cwd := names (Utf8.encode (toString (← IO.currentDir)))
  let fs ← lookAlong ((⟨.dir [], cwd⟩ : FileSystem).noteDir dotName) o.script
  let fs ← o.outputFile.toList.foldlM lookAlong fs
  let m ← openDescriptors deps fs
  match prepare o (deps.map Utf8.encode) m with
  | .error e => return some (.failed e)
  | .ok p =>
    let r ← evaluate o p
    for w in p.warnings ++ r.2.1 do IO.eprintln (" WARN " ++ w.message)
    commit o r.2.2.exit
    sendRecords deps r.2.2
    return CommandLine.complaint? r.1

end BuildScript.Main

open BuildScript in
def main (arguments : List String) : IO UInt32 := do
  let complaint ← match CommandLine.read (arguments.map Utf8.encode) with
    | none => pure (some .usage)
    | some .help => IO.print CommandLine.helpText; pure none
    | some .version => IO.print CommandLine.versionText; pure none
    | some (.run o) => Main.runScript o
  match complaint with
  | none => pure ()
  | some .usage => IO.eprint CommandLine.usageText
  | some c => IO.eprintln ("Error: " ++ c.message)
  return UInt32.ofNat (CommandLine.exitCode complaint)
