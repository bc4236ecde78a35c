import BuildScript.Path.Style
import BuildScript.Script.Program
import BuildScript.Script.Subject
import BuildScript.Script.Table

/-!
# Stores

Tables, functions and variables are shared, and a store holds what they are.

* `Builtin`: the functions that are given to scripts;
* `Function`, `Frame`: functions, and calls of them under way;
* `Store`: all tables, functions and variables, and the calls under way;
* `Store.lookupBeyond`, `Store.definesLeftOut`: what a metatable is used for, and what is left out.
-/

namespace BuildScript.Script

open BuildScript.Path

/-! ## Functions -/

/-- The functions that are given to scripts. -/
inductive Builtin where
  | glob
  | rule
  | matchPattern
  | isAbsolute
  | join
  | split
  | dirname
  | basename
  | splitExtension
  | extension
  | normalize
  | require
  | findPreloaded
  | findFile
  | findNative
  | searchPath
  | loadNative
  | error
  | pcall
  | select
  | tostring
  | type
  | setMetatable
  | ipairs
  | ipairsStep
  | concat
  /-- Raises a fault with a text of its own. -/
  | raise (text : String)
  /-- Does nothing. -/
  | idle
  /-- A function of the language that is left out. -/
  | leftOut
  deriving DecidableEq, Repr

/-- A variable in reach: its name, the cell that holds its value, and how many functions
surround the one that declared it. -/
structure Binding where
  name : Bytes
  cell : Nat
  level : Nat
  deriving DecidableEq, Repr

inductive Function where
  /-- A function of a script, with the variables that it was made among. -/
  | script (body : Body) (scope : List Binding) (chunk : Bytes) (level : Nat)
  | host (b : Builtin)

/-- What was called. -/
inductive Callee where
  /-- A function that was given to the script, and what it was called by. -/
  | host (id : Nat) (called : Option Subject)
  /-- A function of a script, and how far it has come. -/
  | script (place : Place)
  deriving DecidableEq, Repr

/-- A call under way. -/
structure Frame where
  callee : Callee
  /-- How many calls are under way, with this one. -/
  depth : Nat
  /-- How many of them were not made by scripts. -/
  nested : Nat
  deriving DecidableEq, Repr

/-! ## Stores -/

structure Store where
  style : Style
  tables : Array Table
  functions : Array Function
  cells : Array Value
  /-- The calls under way, the innermost first. -/
  frames : List Frame
  globals : Nat
  packages : Nat
  loaded : Nat
  preloaded : Nat
  strings : Nat

namespace Store

/-- The table that an id stands for. -/
def table (s : Store) (id : Nat) : Table := s.tables[id]?.getD Table.empty

def addTable (s : Store) (t : Table) : Nat × Store :=
  (s.tables.size, { s with tables := s.tables.push t })

def setTable (s : Store) (id : Nat) (t : Table) : Store :=
  { s with tables := s.tables.setIfInBounds id t }

def rawGet (s : Store) (id : Nat) (key : Value) : Value := (s.table id).get (Table.normalKey key)

def rawSet (s : Store) (id : Nat) (key value : Value) : Store :=
  s.setTable id ((s.table id).set key value)

/-- A value of a table and the store after it was looked at. -/
def readTable (s : Store) (id : Nat) (key : Value) : Value × Store :=
  let t := s.table id
  let key := Table.normalKey key
  (t.get key, s.setTable id (t.touch key))

/-- The length of a table and the store after it was looked for. -/
def tableLength (s : Store) (id : Nat) : Nat × Store :=
  let found := (s.table id).length
  (found.1, s.setTable id found.2)

/-- The values of a table up to the first `nil`, and the store after they were looked at. -/
def tableSequence (s : Store) (id : Nat) : List Value × Store :=
  let t := s.table id
  let values := t.sequence
  (values, s.setTable id (t.touchAll (List.range' 1 (values.length + 1))))

theorem get_table_setTable {s : Store} {id i : Nat} {t : Table} {key : Value}
    (same : ∀ key, t.get key = (s.table id).get key) :
    ((s.setTable id t).table i).get key = (s.table i).get key := by
  simp only [table, setTable] at same ⊢
  by_cases h : i = id
  · subst h
    by_cases inside : i < s.tables.size
    · simp [inside, same]
    · simp [inside]
  · simp [Array.getElem?_setIfInBounds_ne (Ne.symm h)]

@[simp] theorem readTable_fst (s : Store) (id : Nat) (key : Value) :
    (s.readTable id key).1 = s.rawGet id key := rfl

/-- Looking at a value changes no value. -/
@[simp] theorem rawGet_readTable (s : Store) (id i : Nat) (key other : Value) :
    (s.readTable id key).2.rawGet i other = s.rawGet i other :=
  get_table_setTable fun _ => rfl

/-- Looking at the values up to the first `nil` changes none. -/
@[simp] theorem rawGet_tableSequence (s : Store) (id i : Nat) (key : Value) :
    (s.tableSequence id).2.rawGet i key = s.rawGet i key :=
  get_table_setTable fun _ => Table.get_touchAll ..

/-- Looking for a length changes no value. -/
@[simp] theorem rawGet_tableLength (s : Store) (id i : Nat) (key : Value) :
    (s.tableLength id).2.rawGet i key = s.rawGet i key :=
  get_table_setTable fun _ => rfl

/-- A field with a name of ASCII characters. -/
def field (s : Store) (id : Nat) (name : String) : Value := s.rawGet id (.ofAscii name)

def setField (s : Store) (id : Nat) (name : String) (value : Value) : Store :=
  s.rawSet id (.ofAscii name) value

/-- A function among the entries of a table with texts as keys. -/
def nameIn (s : Store) (table function : Nat) : Option Bytes :=
  (s.table table).entries.findSome? fun
    | (.string name, .function id) => if id = function then some name else none
    | _ => none

/-- The name of a function among the libraries: that of its library, unless it is a global, and
its own. -/
def libraryName? (s : Store) (function : Nat) : Option Bytes :=
  (s.table s.loaded).entries.findSome? fun
    | (.string library, .function id) => if id = function then some library else none
    | (.string library, .table id) =>
      (s.nameIn id function).map fun name =>
        if library = Bytes.ofAscii "_G" then name else library ++ Bytes.ofAscii "." ++ name
    | _ => none

def addFunction (s : Store) (f : Function) : Value × Store :=
  (.function s.functions.size, { s with functions := s.functions.push f })

def addCell (s : Store) (v : Value) : Nat × Store :=
  (s.cells.size, { s with cells := s.cells.push v })

def cell (s : Store) (id : Nat) : Value := s.cells[id]?.getD .nil

def setCell (s : Store) (id : Nat) (v : Value) : Store :=
  { s with cells := s.cells.setIfInBounds id v }

/-! ## Metatables -/

/-- Whether the metatable of a table must not be replaced. -/
def isProtected (s : Store) (id : Nat) : Bool :=
  (s.table id).metatable.any fun m => !(s.field m "__metatable").isNil

/-- What a metatable can define beside the values that stand in for missing keys. All of that is
left out. -/
def leftOutEvents : List String :=
  ["__newindex", "__call", "__eq", "__lt", "__le", "__len", "__concat", "__unm", "__add", "__sub",
    "__mul", "__div", "__mod", "__pow", "__idiv", "__band", "__bor", "__bxor", "__bnot", "__shl",
    "__shr", "__tostring", "__name", "__close", "__gc", "__mode"]

def isLeftOutEvent (key : Value) : Bool := leftOutEvents.any fun e => (Value.ofAscii e).rawEq key

/-- Whether a table as a metatable would define something that is left out. The table of loaded
modules is for that, since modules can have any names. -/
def definesLeftOut (s : Store) (id : Nat) : Bool :=
  id == s.loaded || leftOutEvents.any fun e => !(s.field id e).isNil

/-- Whether a table is the metatable of another one. -/
def isMetatable (s : Store) (id : Nat) : Bool := s.tables.any (·.metatable == some id)

/-- The table that tells what stands in for the missing keys of a value. All strings share
one. -/
def lookupBeyond (s : Store) : Value → Value
  | .table id =>
    match (s.table id).metatable with
    | some m => s.field m "__index"
    | none => .nil
  | .string _ => .table s.strings
  | _ => .nil

end Store

end BuildScript.Script
