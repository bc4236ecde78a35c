import BuildScript.Script.Evaluator

/-!
# What a script finds

The store that a script starts on has the libraries and functions that are given to it, and
the places where modules are looked for.

Scripts are written in Lua 5.4, of which this is covered:

* all forms of the language but labels, jumps to them and variables that are closed;
* all values and operators, but of metatables only `__index` and `__metatable`;
* the functions in `Environment.functions`.

The rest is left out. A script that uses it finds it there and does not come to an end, so nothing
is said of what such a script does: a source with another form is not read on, a table does not
become a metatable with another event, the other functions of the globals, of texts and of tables do
not return, and there is nothing to be found in the libraries in `Environment.closedLibraries`.

* `Environment.start`: the store before any script;
* `Environment.enter`: what is set for a script from some path;
* `Environment.run`: running the source of a script.
-/

namespace BuildScript.Script

open BuildScript.Path

namespace Environment

/-! ## Tables and their functions -/

/-- The tables of the libraries, by the order in which they are made. -/
inductive Place where
  | globals | packages | loaded | preloaded | strings | paths | tables | searchers
  | files | system | routines | numbers | letters | closed
  deriving DecidableEq, Repr

namespace Place

def all : List Place :=
  [globals, packages, loaded, preloaded, strings, paths, tables, searchers, files, system,
    routines, numbers, letters, closed]

/-- The number of a table. -/
def id (p : Place) : Nat := all.idxOf p

def value (p : Place) : Value := .table p.id

end Place

/-- Libraries by their names. -/
def libraries : List (String × Place) :=
  [("package", .packages), ("string", .strings), ("path", .paths), ("table", .tables),
    ("io", .files), ("os", .system), ("coroutine", .routines), ("math", .numbers),
    ("utf8", .letters)]

/-- Functions by their libraries and names. -/
def functions : List (Place × String × Builtin) :=
  [(.globals, "glob", .glob), (.globals, "rule", .rule), (.globals, "require", .require),
    (.globals, "error", .error), (.globals, "pcall", .pcall), (.globals, "select", .select),
    (.globals, "tostring", .tostring), (.globals, "type", .type),
    (.globals, "setmetatable", .setMetatable), (.globals, "ipairs", .ipairs),
    (.strings, "glob", .matchPattern), (.tables, "concat", .concat),
    (.paths, "isabs", .isAbsolute), (.paths, "join", .join), (.paths, "split", .split),
    (.paths, "dirname", .dirname), (.paths, "basename", .basename),
    (.paths, "splitext", .splitExtension), (.paths, "getext", .extension),
    (.paths, "norm", .normalize),
    (.packages, "searchpath", .searchPath), (.packages, "loadlib", .loadNative)]

/-- Functions that are left out, of libraries that have others. -/
def leftOutFunctions : List (Place × List String) :=
  [(.globals, ["assert", "collectgarbage", "dofile", "getmetatable", "load", "loadfile", "next",
      "pairs", "print", "rawequal", "rawget", "rawlen", "rawset", "tonumber", "warn", "xpcall"]),
    (.strings, ["byte", "char", "dump", "find", "format", "gmatch", "gsub", "len", "lower", "match",
      "pack", "packsize", "rep", "reverse", "sub", "unpack", "upper"]),
    (.tables, ["insert", "move", "pack", "remove", "sort", "unpack"])]

/-- Libraries that are left out as a whole. -/
def closedLibraries : List Place := [.files, .system, .routines, .numbers, .letters]

/-- Where modules are looked for behind the directories of scripts. -/
def defaultPath : String :=
  "/usr/local/share/lua/5.4/?.lua;/usr/local/share/lua/5.4/?/init.lua;" ++
  "/usr/local/lib/lua/5.4/?.lua;/usr/local/lib/lua/5.4/?/init.lua;./?.lua;./?/init.lua"

def defaultNativePath : String :=
  "/usr/local/lib/lua/5.4/?.so;/usr/local/lib/lua/5.4/loadall.so;./?.so"

/-- The ways of looking for a module, in order. -/
def searchers : List Builtin := [.findPreloaded, .findFile, .findNative]

/-- Puts a function into a table. -/
def give (s : Store) (table : Nat) (key : Value) (b : Builtin) : Store :=
  let r := s.addFunction (.host b)
  r.2.rawSet table key r.1

def giveText (s : Store) (p : Place) (name text : String) : Store :=
  s.setField p.id name (.ofAscii text)

/-- Puts a library where scripts and `require` find it. -/
def giveLibrary (s : Store) (name : String) (p : Place) : Store :=
  (s.setField Place.globals.id name p.value).setField Place.loaded.id name p.value

/-- Looking for anything in a library does not come to an end. -/
def close (s : Store) (p : Place) : Store :=
  s.setTable p.id { s.table p.id with metatable := some Place.closed.id }

/-- The store before any script. -/
def start (style : Style) : Store :=
  let empty : Store :=
    { style
      tables := (Place.all.map fun _ => Table.empty).toArray
      functions := #[]
      cells := #[]
      frames := []
      globals := Place.globals.id
      packages := Place.packages.id
      loaded := Place.loaded.id
      preloaded := Place.preloaded.id
      strings := Place.strings.id }
  let s := libraries.foldl (fun s l => giveLibrary s l.1 l.2) (giveLibrary empty "_G" .globals)
  let s := functions.foldl (fun s f => give s f.1.id (.ofAscii f.2.1) f.2.2) s
  let s := (searchers.zipIdx 1).foldl (fun s b => give s Place.searchers.id (.whole b.2) b.1) s
  let s := s.setField Place.packages.id "searchers" Place.searchers.value
  let s := s.setField Place.packages.id "loaded" Place.loaded.value
  let s := s.setField Place.packages.id "preload" Place.preloaded.value
  let s := giveText s .packages "path" defaultPath
  let s := giveText s .packages "cpath" defaultNativePath
  let s := giveText s .packages "config" "/\n;\n?\n!\n-\n"
  let s := giveText s .globals "_VERSION" "Lua 5.4"
  let leftOut := leftOutFunctions.flatMap fun p => p.2.map (p.1, ·)
  let s := leftOut.foldl (fun s f => give s f.1.id (.ofAscii f.2) .leftOut) s
  let s := give s Place.closed.id (.ofAscii "__index") .leftOut
  closedLibraries.foldl close s

/-! ## Scripts -/

open Run

/-- How the files of modules are named. -/
def templates : List String := ["?.lua", "?/init.lua"]

/-- The places of modules in a directory, in front of others. -/
def searchDir (style : Style) (dir others : Bytes) : Bytes :=
  (templates.flatMap fun t =>
    style.join dir (Bytes.ofAscii t) ++ [Library.templateSeparator]) ++ others

/-- Puts a directory in front of the places of modules. -/
def prependSearchDir (h : Host) (dir : Bytes) : Run Unit := do
  let style ← look Store.style
  let globals : Value := .table (← look Store.globals)
  let packages ← Library.wantTable (← atHost (h.lookup globals (.ofAscii "package")))
  let others ← Library.wantString (← atHost (h.lookup packages (.ofAscii "path")))
  match packages with
  | .table id => change fun s => s.setField id "path" (.string (searchDir style dir others))
  | _ => pure ()

/-- What a script finds of its own path: the name of its directory, and that modules are looked
for there first. -/
def enter (h : Host) (script : Bytes) : Run Unit := do
  let dir := (← look Store.style).dirname script
  change fun s => s.setField s.globals Library.scriptDirName (.string dir)
  prependSearchDir h dir

/-- Runs a script: it is entered, told to whoever asks what is used, and evaluated. -/
def run (h : Host) (path source : Bytes) (arguments : List String) : Run Unit := do
  enter h path
  ask (.report path)
  match compile (← nestedCalls) path source with
  | .error f => fail f
  | .ok body =>
    let main ← newProgram body (chunkName path)
    let _ ← atHost (h.call main (arguments.map fun a => .string (Utf8.encode a)))
    return ()

end Environment

end BuildScript.Script
