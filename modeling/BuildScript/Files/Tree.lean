import BuildScript.Files.Error
import BuildScript.Glob.Walk

/-!
# File systems

A file system is a finite tree of directories, files and symbolic links, with a current
directory. A path is followed from the root or from the current directory, name by name,
through links, to a location: the list of names that lead there from the root, without links
or dots.

* `FileSystem.locate`: the location that a path names;
* `FileSystem.list`, `FileSystem.read`, `FileSystem.canOpen`: looking at it;
* `FileSystem.create`: an empty file in its place;
* `FileSystem.contentAt`, `FileSystem.setContentAt`: the file at a location.
-/

namespace BuildScript.Files

/-- What a name in a directory stands for. -/
inductive Node where
  | file (content : Bytes)
  | dir (entries : List (Bytes × Node))
  | link (target : Bytes)

/-- Where something is: the names on the way from the root. -/
abbrev Location := List Bytes

/-! ## Nodes -/

/-- What a directory has under a name. -/
def child? (entries : List (Bytes × Node)) (name : Bytes) : Option Node :=
  (entries.find? (·.1 == name)).map Prod.snd

/-- What is at a location below a node. -/
def Node.at? (node : Node) : Location → Option Node
  | [] => some node
  | name :: rest =>
    match node with
    | .dir entries => (child? entries name).bind (at? · rest)
    | _ => none

/-- A node in the place of the one that a directory has under a name, or as a new entry. -/
def setEntry (name : Bytes) (node : Node) : List (Bytes × Node) → List (Bytes × Node)
  | [] => [(name, node)]
  | e :: rest => if e.1 == name then (name, node) :: rest else e :: setEntry name node rest

/-- A node put at a location whose directories are all there. -/
def Node.set (node : Node) (new : Node) : Location → Node
  | [] => new
  | name :: rest =>
    match node with
    | .dir entries =>
      .dir (setEntry name (Node.set ((child? entries name).getD (.dir [])) new rest) entries)
    | _ => node

/-! ## File systems -/

structure FileSystem where
  root : Node
  cwd : Location

/-- How many links a path may lead through. -/
def maxLinks : Nat := 40

/-- The longest name that a directory can have. -/
def maxName : Nat := 255

/-- The longest path that can be handed to the system. -/
def maxPath : Nat := 4095

/-- The names of a path, without the separators. -/
def names (path : Bytes) : List Bytes :=
  (path.splitOnP (· == Path.Style.slash)).filter (!·.isEmpty)

def isAbsolute (path : Bytes) : Bool := path.head? == some Path.Style.slash

/-- Whether a path asks for a directory by ending in a separator. -/
def asksForDir (path : Bytes) : Bool := path.getLast? == some Path.Style.slash

def dotName : Bytes := [Path.Style.dot]
def dotDotName : Bytes := [Path.Style.dot, Path.Style.dot]

/-- The names to follow for a path. A separator at the end asks for the directory itself. -/
def steps (path : Bytes) : List Bytes :=
  names path ++ if asksForDir path then [dotName] else []

namespace FileSystem

/-- Where a path starts: an absolute one at the root. -/
def start (path : Bytes) (base : Location) : Location :=
  if isAbsolute path then [] else base

/-- Follows names from a location. The last one may be missing: the location is then the
place where it would be. -/
def follow (fs : FileSystem) (links : Nat) (at_ : Location) (rest : List Bytes) :
    Except OsError Location :=
  match rest with
  | [] => .ok at_
  | name :: rest =>
    match fs.root.at? at_ with
    | some (.dir entries) =>
      if name = dotName then fs.follow links at_ rest
      else if name = dotDotName then fs.follow links at_.dropLast rest
      else if maxName < name.length then .error .nameTooLong
      else
        match child? entries name with
        | none => if rest.isEmpty then .ok (at_ ++ [name]) else .error .notFound
        | some (.link target) =>
          match links with
          | 0 => .error .tooManyLinks
          | links + 1 => fs.follow links (start target at_) (steps target ++ rest)
        | some _ => fs.follow links (at_ ++ [name]) rest
    | some _ => .error .notDirectory
    | none => .error .notFound
termination_by (links, rest.length)

/-- What keeps a path from being looked at. -/
def refused? (path : Bytes) : Option OsError :=
  if path.contains 0 then some .nulInName
  else if path.isEmpty then some .notFound
  else if maxPath < path.length then some .nameTooLong
  else none

/-- The location that a path names; the last name need not exist. -/
def locate (fs : FileSystem) (path : Bytes) : Except OsError Location :=
  match refused? path with
  | some e => .error e
  | none => fs.follow maxLinks (start path fs.cwd) (steps path)

/-- The location and the node that a path names. -/
def lookup (fs : FileSystem) (path : Bytes) : Except OsError (Location × Node) :=
  (fs.locate path).bind fun loc =>
    match fs.root.at? loc with
    | some node => .ok (loc, node)
    | none => .error .notFound

/-! ## Looking -/

/-- The entries of the directory that a path names. A link is told from a directory. -/
def list (fs : FileSystem) : Glob.Listing := fun path =>
  match fs.lookup path with
  | .ok (_, .dir entries) =>
    some (entries.map fun e => ⟨e.1, match e.2 with | .dir _ => true | _ => false⟩)
  | _ => none

/-- The content of the file that a path names. -/
def read (fs : FileSystem) (path : Bytes) : Except OsError Bytes :=
  (fs.lookup path).bind fun
    | (_, .file content) => .ok content
    | _ => .error .isDirectory

/-- Whether a path names something that can be opened for reading. A directory can. -/
def canOpen (fs : FileSystem) (path : Bytes) : Bool := (fs.lookup path).isOk

/-! ## Changing -/

def contentAt (fs : FileSystem) (loc : Location) : Bytes :=
  match fs.root.at? loc with
  | some (.file content) => content
  | _ => []

def setContentAt (fs : FileSystem) (loc : Location) (content : Bytes) : FileSystem :=
  { fs with root := fs.root.set (.file content) loc }

/-- The directory part of a path that ends in separators. -/
def withoutLastName (path : Bytes) : Bytes :=
  let dir := Path.Style.posix.lead (Path.Style.posix.trimEnd path)
  if dir.isEmpty then dotName else dir

/-- The location for a file to be created. A path that asks for a directory never names a
file, even if nothing is there yet. -/
def locateNew (fs : FileSystem) (path : Bytes) : Except OsError Location :=
  if asksForDir path then
    (fs.lookup (withoutLastName path)).bind fun
      | (_, .dir _) => .error .isDirectory
      | _ => .error .notDirectory
  else
    (fs.locate path).bind fun loc =>
      match fs.root.at? loc with
      | some (.dir _) => .error .isDirectory
      | _ => .ok loc

/-- An empty file at a path, in the place of the one that may be there. -/
def create (fs : FileSystem) (path : Bytes) : Except OsError (Location × FileSystem) :=
  match refused? path with
  | some e => .error e
  | none => (fs.locateNew path).map fun loc => (loc, fs.setContentAt loc [])

end FileSystem

end BuildScript.Files
