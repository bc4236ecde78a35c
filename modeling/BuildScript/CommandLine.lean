import BuildScript.Evaluation

/-!
# The command line

Options come before the first argument that is meant for the script; `--` ends them early. In
front of the script every word that begins with a dash has to be an option. Behind it, a word
that is none is the first argument for the script, and all further words are arguments, too.

* `Word`: what a word is by its looks;
* `read`: what the words of a command line ask for; nothing if they are not used as they have
  to be;
* `perform`: a command line on a machine.
-/

namespace BuildScript

open Files Deps

/-- What a command line asks for. -/
inductive Command where
  | help
  | version
  | run (o : Options)

namespace CommandLine

/-! ## Words -/

def minus : UInt8 := 0x2D
def equals : UInt8 := 0x3D

/-- What a word is by its looks. -/
inductive Word where
  | endOfOptions
  /-- Two dashes and a name, and a value if there is an equals sign. -/
  | long (name : Bytes) (value : Option Bytes)
  /-- A dash, a letter and what follows it. -/
  | short (letter : UInt8) (rest : Bytes)
  | plain
  deriving DecidableEq, Repr

/-- The part of a word in front of the first equals sign, and the part behind it. -/
def splitValue (bs : Bytes) : Bytes × Option Bytes :=
  match bs.dropWhile (· != equals) with
  | [] => (bs, none)
  | _ :: value => (bs.takeWhile (· != equals), some value)

def Word.read : Bytes → Word
  | a :: b :: rest =>
    if a != minus then plain
    else if b != minus then short b rest
    else if rest.isEmpty then endOfOptions
    else let p := splitValue rest; long p.1 p.2
  | _ => plain

/-! ## Options -/

/-- The options that there are. -/
inductive Switch where
  | output
  | help
  | version
  deriving DecidableEq, Repr

/-- Options by their letters and names. -/
def switches : List (UInt8 × String × Switch) :=
  [(0x6F, "output", .output), (0x68, "help", .help), (0x56, "version", .version)]

def ofLetter? (letter : UInt8) : Option Switch :=
  (switches.find? (·.1 == letter)).map fun s => s.2.2

def ofName? (name : Bytes) : Option Switch :=
  (switches.find? fun s => Bytes.ofAscii s.2.1 == name).map fun s => s.2.2

/-- A value that follows the letter of an option in the same word. -/
def attached? : Bytes → Option Bytes
  | [] => none
  | b :: value => some (if b == equals then value else b :: value)

/-- The option of a word, and the value that it has in the same word. Only the output takes
one. -/
def switch? : Word → Option (Switch × Option Bytes)
  | .long name value =>
    ((ofName? name).map (·, value)).filter fun s => s.1 == .output || value.isNone
  | .short letter rest =>
    (ofLetter? letter).map fun s => (s, if s == .output then attached? rest else none)
  | _ => none

/-- Whether a word behind the script is none of the options. A word of letters is one only if
every letter is. -/
def isForeign : Word → Bool
  | .long name _ => (ofName? name).isNone && (Utf8.decode? name).isSome
  | .short letter rest => (letter :: rest).any fun b => (ofLetter? b).isNone
  | .endOfOptions => false
  | .plain => true

/-! ## Reading -/

/-- What the words so far have given. -/
structure Given where
  script : Option Bytes
  output : Option Bytes

namespace Given

/-- The script and the output are not empty, and the output is given once. -/
def setScript (g : Given) (word : Bytes) : Option Given :=
  if word.isEmpty then none else some { g with script := some word }

def setOutput (g : Given) (word : Bytes) : Option Given :=
  if word.isEmpty || g.output.isSome then none else some { g with output := some word }

/-- Whether a word can be the value of the option in front of it. -/
def canBeValue (g : Given) (word : Bytes) : Bool :=
  match Word.read word with
  | .plain => true
  | w => g.script.isSome && isForeign w

/-- The command with the arguments for the script, which have to be text. -/
def command (g : Given) (arguments : List Bytes) : Option Command := do
  return .run ⟨← g.script, g.output, ← arguments.mapM Utf8.decode?⟩

/-- The command with words of which none is an option. -/
def plainly (g : Given) (words : List Bytes) : Option Command :=
  match g.script, words with
  | none, word :: rest => (g.setScript word).bind (command · rest)
  | _, words => g.command words

/-- The command of the words that are left. -/
def read (g : Given) : List Bytes → Option Command
  | [] => g.command []
  | word :: rest =>
    match Word.read word with
    | .endOfOptions => g.plainly rest
    | w =>
      if g.script.isSome && isForeign w then g.command (word :: rest)
      else if w = .plain then (g.setScript word).bind (read · rest)
      else
        match switch? w, rest with
        | some (.help, _), _ => some .help
        | some (.version, _), _ => some .version
        | some (.output, some value), rest => (g.setOutput value).bind (read · rest)
        | some (.output, none), value :: rest =>
          if g.canBeValue value then (g.setOutput value).bind (read · rest) else none
        | _, _ => none

end Given

/-- What the words of a command line ask for. -/
def read (words : List Bytes) : Option Command := Given.read ⟨none, none⟩ words

/-! ## Texts -/

def usageText : String := "Usage: bblua [OPTIONS] <SCRIPT> [ARGS]...\n"

def helpText : String :=
  "Generate build rules from a Lua script\n\n" ++ usageText ++
  "\nArguments:\n" ++
  "  <SCRIPT>   Build script to run\n" ++
  "  [ARGS]...  Arguments passed to the script as `...`\n" ++
  "\nOptions:\n" ++
  "  -o, --output <OUTPUT>  Write rules to this file instead of standard output " ++
  "(`-` for stdout)\n" ++
  "  -h, --help             Print help\n" ++
  "  -V, --version          Print version\n"

def versionText : String := "bblua 0.1.0\n"

/-! ## Performing -/

/-- Why a command line fails. -/
inductive Complaint where
  | usage
  | failed (e : EvaluationError)
  /-- The script does not come to an end within the steps that it was given. -/
  | unfinished
  deriving DecidableEq, Repr

def Complaint.message : Complaint → String
  | usage => usageText
  | failed e => e.message
  | unfinished => "the script does not end"

def complaint? : Ending → Option Complaint
  | .complete _ => none
  | .failed e => some (.failed e)
  | .unfinished => some .unfinished

/-- The code that a command line ends with. -/
def exitCode (c : Option Complaint) : Nat := if c.isSome then 1 else 0

/-- Writes a text to the standard output. -/
def say (text : String) (m : Machine) : Machine :=
  (Machine.standardOutput.write (Utf8.encode text) m).2

/-- A command line on a machine, with so many nested steps of the script at most. -/
def perform (steps : Nat) (words : List Bytes) (deps : Option Bytes) (m : Machine) :
    Option Complaint × List Warning × Machine :=
  match read words with
  | none => (some .usage, [], m)
  | some .help => (none, [], (say helpText m).exit)
  | some .version => (none, [], (say versionText m).exit)
  | some (.run o) =>
    let r := execute steps o deps m
    (complaint? r.1, r.2.1, r.2.2.exit)

end CommandLine

end BuildScript
