import BuildScript.Glob.MatchSet
import BuildScript.Script.Chunk
import BuildScript.Script.Run

/-!
# Functions given to scripts

* `Library.glob`, `Library.rule`: what a build script is there for;
* `Library.path…`: the operations on paths;
* `Library.require` and the ways in which it looks for modules;
* functions on values: raising and catching, lengths of argument lists, texts and tables.

A function works on its arguments and can call values and look up fields through a `Host`,
which is the evaluator. The functions made for build scripts tell whole numbers from others in
their messages and raise faults; the others raise texts that begin with the place of the call.
-/

namespace BuildScript.Script

open BuildScript.Path Glob

/-- What functions given to a script can do with its values. -/
structure Host where
  call : Value → List Value → Run (List Value)
  lookup : Value → Value → Run Value

namespace Library

open Run

/-! ## Arguments -/

def argument (arguments : List Value) (position : Nat) : Value :=
  arguments.getD (position - 1) .nil

/-- A string argument, or the text of a number. -/
def stringArgument (arguments : List Value) (position : Nat) : Run Bytes :=
  let v := argument arguments position
  match v.toBytes? with
  | some bs => return bs
  | none => fail (.badArgument position ⟨v.exactTypeName, .string⟩)

def wrongArgument (position : Nat) (function expected got : String) : Fault :=
  .external ("bad argument #" ++ toString position ++ " to '" ++ function ++ "' (" ++ expected ++
    " expected, got " ++ got ++ ")")

/-- One of many values that have to be strings or numbers. -/
def stringAmong (function : String) (position : Nat) (v : Value) : Run Bytes :=
  match v.toBytes? with
  | some bs => return bs
  | none => fail (wrongArgument position function "string" v.exactTypeName)

/-- A value that is not an argument and has to be a string or a number. -/
def wantString (v : Value) : Run Bytes :=
  match v.toBytes? with
  | some bs => return bs
  | none => fail (.conversion ⟨v.exactTypeName, .string⟩)

/-- The same, where nothing will do, too. -/
def wantString? (v : Value) : Run (Option Bytes) :=
  if v.isNil then return none else some <$> wantString v

def wantTable (v : Value) : Run Value :=
  match v with
  | .table _ => return v
  | _ => fail (.conversion ⟨v.exactTypeName, .table⟩)

def wantFunction (v : Value) : Run Value :=
  match v with
  | .function _ => return v
  | _ => fail (.conversion ⟨v.exactTypeName, .function⟩)

/-- The type of an argument as messages about arguments name it. -/
def argumentType (arguments : List Value) (position : Nat) : String :=
  match arguments[position - 1]? with
  | none => "no value"
  | some .address => "light userdata"
  | some v => v.typeName

def refuseType {α : Type} (arguments : List Value) (position : Nat) (expected : String) : Run α :=
  refuseArgument position (expected ++ " expected, got " ++ argumentType arguments position)

/-- A string argument of a function that complains at the place of its call. -/
def checkString (arguments : List Value) (position : Nat) : Run Bytes :=
  match (argument arguments position).toBytes? with
  | some bs => return bs
  | none => refuseType arguments position "string"

/-- The same, ending before the first NUL. -/
def checkName (arguments : List Value) (position : Nat) : Run Bytes := do
  return (← checkString arguments position).untilNul

/-- A name that need not be given. -/
def checkNameOr (arguments : List Value) (position : Nat) (other : Bytes) : Run Bytes :=
  if (argument arguments position).isNil then return other
  else checkName arguments position

def checkWhole (arguments : List Value) (position : Nat) : Run Int64 :=
  match (argument arguments position).toNumber? with
  | some n =>
    match n.toWhole? with
    | some w => return w
    | none => refuseArgument position "number has no integer representation"
  | none => refuseType arguments position "number"

def checkTable (arguments : List Value) (position : Nat) : Run Nat :=
  match argument arguments position with
  | .table id => return id
  | _ => refuseType arguments position "table"

def checkAny (arguments : List Value) : Run Value :=
  match arguments with
  | v :: _ => return v
  | [] => refuseArgument 1 "value expected"

/-! ## Globs -/

/-- The global that names the directory of the script. -/
def scriptDirName : String := "SCRIPT_DIR"

/-- The directory that patterns are relative to. -/
def scriptDir (h : Host) : Run Bytes := do
  let v ← atHost (h.lookup (.table (← look Store.globals)) (.ofAscii scriptDirName))
  return (← wantString? v).getD []

/-- Arguments with their positions, where the values of a table have the position of the
table. -/
def flatten (arguments : List Value) : Run (List (Nat × Value)) :=
  List.flatten <$> (arguments.zipIdx 1).mapM fun p =>
    match p.1 with
    | .table id => do return (← make (·.tableSequence id)).map (p.2, ·)
    | v => return [(p.2, v)]

/-- Applies a pattern to a set of paths. -/
def applyPattern (set : MatchSet) (pattern : Bytes) : Run MatchSet := do
  let signed := Signed.read pattern
  match ← ask (.expand signed.pattern) with
  | some paths => return set.applyPaths signed.exclude paths
  | none => unfinished

/-- The paths that patterns leave. Each pattern is looked at when its turn comes. -/
def glob (h : Host) (arguments : List Value) : Run (List Value) := do
  let dir ← scriptDir h
  let style ← look Store.style
  let set ← (← flatten arguments).foldlM (fun set p => do
    let pattern ← stringAmong "glob" p.1 p.2
    applyPattern set (rebase style dir pattern)) MatchSet.empty
  return [← newTable (Table.ofList (set.paths.map .string))]

/-- Whether a text matches a pattern. -/
def matchPattern (arguments : List Value) : Run (List Value) := do
  let text ← stringArgument arguments 1
  let pattern ← stringArgument arguments 2
  return [.bool (matchesPattern (← look Store.style) text pattern)]

/-! ## Rules -/

/-- One item of a list of a rule. -/
def ruleItem (field : String) (index : Nat) (v : Value) : Run String :=
  let place := "rule field '" ++ field ++ "' item " ++ toString index
  match v with
  | .string bs =>
    match Utf8.decode? bs with
    | some text => return text
    | none => fail (.external (place ++ " is not valid UTF-8"))
  | v => fail (.external (place ++ " must be a string, got " ++ v.exactTypeName))

/-- A list of a rule. One that is missing is empty. -/
def ruleList (h : Host) (spec : Value) (field : String) : Run (List String) := do
  match ← atHost (h.lookup spec (.ofAscii field)) with
  | .nil => return []
  | .table id =>
    ((← make (·.tableSequence id)).zipIdx 1).mapM fun p => ruleItem field p.2 p.1
  | v =>
    fail (.external ("rule field '" ++ field ++ "' must be a table, got " ++ v.exactTypeName))

/-- Makes a rule of a table with three lists. All of them are checked before anything is
written. -/
def rule (h : Host) (arguments : List Value) : Run (List Value) := do
  match argument arguments 1 with
  | .table id => do
    let inputs ← ruleList h (.table id) "inputs"
    let task ← ruleList h (.table id) "task"
    let outputs ← ruleList h (.table id) "outputs"
    match ← ask (.emit ⟨inputs, task, outputs⟩) with
    | .ok _ => return []
    | .error e => fail (.external e.message)
  | v => fail (wrongArgument 1 "rule" "table" v.exactTypeName)

/-! ## Paths -/

/-- A function of one path. -/
def onPath (f : Style → Bytes → List Value) (arguments : List Value) : Run (List Value) := do
  let path ← stringArgument arguments 1
  return f (← look Store.style) path

def splitValues (s : Split) : List Value := [.string s.head, .string s.tail]

/-- Puts all components that are there behind one another. -/
def join (arguments : List Value) : Run (List Value) := do
  let style ← look Store.style
  let path ← (arguments.zipIdx 1).foldlM (fun path p => do
    if p.1.isNil then return path
    else return style.join path (← stringAmong "join" p.2 p.1)) []
  return [.string path]

/-! ## Modules -/

/-- Every part of a string that is `old`, replaced by `new`. Nothing is replaced if `old` is
empty. -/
def replaceAll (old new : Bytes) : (fuel : Nat) → Bytes → Bytes
  | 0, bs => bs
  | _ + 1, [] => []
  | fuel + 1, b :: rest =>
    match if old.isEmpty then none else Bytes.after? old (b :: rest) with
    | some after => new ++ replaceAll old new fuel after
    | none => b :: replaceAll old new fuel rest

def replace (old new bs : Bytes) : Bytes := replaceAll old new bs.length bs

def templateMark : Bytes := Bytes.ofAscii "?"
def templateSeparator : UInt8 := 0x3B

/-- The files that a module could be in: a name put into each of the templates. -/
def candidates (path name : Bytes) : List Bytes :=
  match replace templateMark name path with
  | [] => []
  | files => files.splitOnP (· == templateSeparator)

/-- The name of a module as part of a path. -/
def moduleFile (name separator directorySeparator : Bytes) : Bytes :=
  match separator with
  | [] => name
  | b :: _ => if name.contains b then replace separator directorySeparator name else name

/-- The first file that can be opened. -/
def firstOpen : List Bytes → Run (Option Bytes)
  | [] => return none
  | file :: rest => do if ← ask (.probe file) then return some file else firstOpen rest

/-- Looks for the file of a module. Without one, the message lists the files that are not
there. -/
def searchPath (arguments : List Value) : Run (List Value) := do
  let name ← checkName arguments 1
  let path ← checkName arguments 2
  let separator ← checkNameOr arguments 3 (Bytes.ofAscii ".")
  let directorySeparator ← checkNameOr arguments 4 [Style.slash]
  let file := moduleFile name separator directorySeparator
  match ← firstOpen (candidates path file) with
  | some found => return [.string found]
  | none =>
    let tried := replace [templateSeparator] (Bytes.ofAscii "'\n\tno file '")
      (replace templateMark file path)
    return [.nil, .string (Bytes.ofAscii "no file '" ++ tried ++ Bytes.ofAscii "'")]

/-- Looks for a loader that was put there for a module. -/
def findPreloaded (h : Host) (arguments : List Value) : Run (List Value) := do
  let name ← checkName arguments 1
  match ← h.lookup (.table (← look Store.preloaded)) (.string name) with
  | .nil =>
    return [.string (Bytes.ofAscii "no field package.preload['" ++ name ++ Bytes.ofAscii "']")]
  | loader => return [loader, .ofAscii ":preload:"]

/-- Looks for the file of a module with the search function of the script and compiles what is
in it. -/
def findFile (h : Host) (arguments : List Value) : Run (List Value) := do
  let name ← stringArgument arguments 1
  let globals ← look Store.globals
  let packages ← wantTable (← atHost (h.lookup (.table globals) (.ofAscii "package")))
  let path ← wantString (← atHost (h.lookup packages (.ofAscii "path")))
  let search ← wantFunction (← atHost (h.lookup packages (.ofAscii "searchpath")))
  let results ← atHost (h.call search [.string name, .string path])
  let found ← wantString? (argument results 1)
  let message ← wantString? (argument results 2)
  match found with
  | none => return [.nil, .string (message.getD [])]
  | some file =>
    match ← ask (.load file) with
    | .error e =>
      fail (.external ("cannot read '" ++ Utf8.decodeLossy file ++ "': " ++ e.message))
    | .ok source =>
      match compile (← nestedCalls) file source with
      | .error f => fail f
      | .ok body => return [← newProgram body (chunkName file), .string file]

def nativeMessage : String := "\n\tcan't load C modules in safe mode"

def messageStart : Bytes := Bytes.ofAscii "\n\t"

/-- Asks one searcher after the other for a loader and its second argument. -/
def findLoader (h : Host) (name : Bytes) (searchers : Nat) :
    (fuel : Nat) → (index : Nat) → (message : Bytes) → Run (Value × Value)
  | 0, _, message => notFound message
  | fuel + 1, index, message => do
    match ← look (fun s => (s.table searchers).at_ index) with
    | .nil => notFound message
    | searcher =>
      let results ← h.call searcher [.string name]
      let first := argument results 1
      if first.isFunction then return (first, argument results 2)
      else
        match first.toBytes? with
        | some text =>
          findLoader h name searchers fuel (index + 1) (message ++ messageStart ++ text)
        | none => findLoader h name searchers fuel (index + 1) message
where
  notFound (message : Bytes) : Run (Value × Value) :=
    complain (Bytes.ofAscii "module '" ++ name ++ Bytes.ofAscii "' not found:" ++
      message.untilNul)

/-- The value of a module, and where it comes from if it was not loaded yet. A module that
gives nothing and leaves nothing has the value `true`. -/
def require (h : Host) (arguments : List Value) : Run (List Value) := do
  let given ← checkString arguments 1
  let name := given.untilNul
  let loaded ← look Store.loaded
  let cached ← h.lookup (.table loaded) (.string name)
  if cached.isTrue then return [cached]
  match ← h.lookup (.table (← look Store.packages)) (.ofAscii "searchers") with
  | .table searchers => do
    let rounds ← look fun s => (s.table searchers).entries.length + 1
    let (loader, data) ← findLoader h name searchers rounds 1 []
    let value := argument (← h.call loader [.string given, data]) 1
    if !value.isNil then change fun s => s.rawSet loaded (.string name) value
    match ← h.lookup (.table loaded) (.string name) with
    | .nil => do
      change fun s => s.rawSet loaded (.string name) (.bool true)
      return [.bool true, data]
    | value => return [value, data]
  | _ => complain (Bytes.ofAscii "'package.searchers' must be a table")

/-! ## Values -/

/-- The number that the low 32 bits of a word stand for. -/
def lowHalf (w : Int64) : Int := Int.bmod w.toInt 4294967296

/-- Raises a value. A text gets the place of one of the calls under way in front, which is
counted with 32 bits. -/
def error (arguments : List Value) : Run (List Value) := do
  let level ←
    if (argument arguments 2).isNil then pure 1 else lowHalf <$> checkWhole arguments 2
  match argument arguments 1 with
  | .string bs =>
    if 0 < level then raise (.string ((← position level.toNat) ++ bs)) else raise (.string bs)
  | v => raise v

/-- Calls a function and catches what it raises. -/
def pcall (h : Host) (arguments : List Value) : Run (List Value) := do
  let f ← checkAny arguments
  match ← attempt (h.call f arguments.tail) with
  | .ok results => return .bool true :: results
  | .error v => return [.bool false, v]

/-- Arguments from an index on, or counted from the last one; or how many there are. -/
def select (arguments : List Value) : Run (List Value) := do
  let isCount := match arguments with
    | .string bs :: _ => bs.head? == some 0x23
    | _ => false
  let count := arguments.length - 1
  if isCount then return [.whole count]
  else
    let index := (← checkWhole arguments 1).toInt
    let first := if index < 0 then count + index + 1 else index
    if first < 1 then refuseArgument 1 "index out of range"
    else return arguments.drop first.toNat

def tostring (arguments : List Value) : Run (List Value) := do
  return [.string (← checkAny arguments).text]

def type (arguments : List Value) : Run (List Value) := do
  return [.ofAscii (← checkAny arguments).typeName]

/-- Gives a table another one that tells what stands in for its missing keys. -/
def setMetatable (arguments : List Value) : Run (List Value) := do
  let id ← checkTable arguments 1
  let change (m : Option Nat) : Run (List Value) := do
    if ← look (·.isProtected id) then
      complain (Bytes.ofAscii "cannot change a protected metatable")
    else if ← look fun s => m.any s.definesLeftOut then leftOut
    else
      Run.change fun s => s.setTable id { s.table id with metatable := m }
      return [.table id]
  match arguments with
  | _ :: .nil :: _ => change none
  | _ :: .table m :: _ => change (some m)
  | _ => refuseType arguments 2 "nil or table"

/-- The next index after one, and its value if there is one. -/
def ipairsStep (h : Host) (arguments : List Value) : Run (List Value) := do
  let index := (← checkWhole arguments 2) + 1
  let key : Value := .number (.whole index)
  match ← h.lookup (argument arguments 1) key with
  | .nil => return [.nil]
  | v => return [key, v]

/-- What a loop over the indices of a value needs. -/
def ipairs (arguments : List Value) : Run (List Value) := do
  let v ← checkAny arguments
  return [← newFunction (.host .ipairsStep), v, .whole 0]

/-- The texts at some indices of a table. -/
def texts (h : Host) (table : Value) : (count : Nat) → (index : Int) → Run (List Bytes)
  | 0, _ => return []
  | count + 1, index => do
    let v ← h.lookup table (.whole index)
    match v.toBytes? with
    | some bs => return bs :: (← texts h table count (index + 1))
    | none =>
      complain (Bytes.ofAscii ("invalid value (" ++ v.typeName ++ ") at index ") ++
        Bytes.ofInt index ++ Bytes.ofAscii " in table for 'concat'")

/-- The texts of a table, with another one between them. -/
def concat (h : Host) (arguments : List Value) : Run (List Value) := do
  let id ← checkTable arguments 1
  let length ← make (·.tableLength id)
  let separator ← if (argument arguments 2).isNil then pure [] else checkString arguments 2
  let first ← if (argument arguments 3).isNil then pure 1 else
    Int64.toInt <$> checkWhole arguments 3
  let last ← if (argument arguments 4).isNil then pure (length : Int) else
    Int64.toInt <$> checkWhole arguments 4
  let pieces ← texts h (.table id) (last - first + 1).toNat first
  return [.string (pieces.intersperse separator).flatten]

/-! ## All of them -/

def call (h : Host) (b : Builtin) (arguments : List Value) : Run (List Value) :=
  match b with
  | .glob => glob h arguments
  | .rule => rule h arguments
  | .matchPattern => matchPattern arguments
  | .isAbsolute => onPath (fun s p => [.bool (s.isAbsolute p)]) arguments
  | .join => join arguments
  | .split => onPath (fun s p => splitValues (s.split p)) arguments
  | .dirname => onPath (fun s p => [.string (s.dirname p)]) arguments
  | .basename => onPath (fun s p => [.string (s.basename p)]) arguments
  | .splitExtension => onPath (fun s p => splitValues (s.splitExtension p)) arguments
  | .extension => onPath (fun s p => [.string (s.extension p)]) arguments
  | .normalize => onPath (fun s p => [.string (s.normalize p)]) arguments
  | .require => require h arguments
  | .findPreloaded => findPreloaded h arguments
  | .findFile => findFile h arguments
  | .findNative => return [.ofAscii nativeMessage]
  | .searchPath => searchPath arguments
  | .loadNative => fail (.external "package.loadlib is disabled in safe mode")
  | .error => error arguments
  | .pcall => pcall h arguments
  | .select => select arguments
  | .tostring => tostring arguments
  | .type => type arguments
  | .setMetatable => setMetatable arguments
  | .ipairs => ipairs arguments
  | .ipairsStep => ipairsStep h arguments
  | .concat => concat h arguments
  | .raise text => fail (.external text)
  | .idle => return []
  | .leftOut => leftOut

end Library

end BuildScript.Script
