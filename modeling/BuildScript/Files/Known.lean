import BuildScript.Files.Tree

/-!
# What is known of a file system

A file system that cannot be looked at as a whole is built from what has been found out about
it. Paths are taken literally here: nothing that is known is a link.

* `ancestors`: the paths on the way to a path;
* `FileSystem.noteFile`, `FileSystem.noteDir`: taking note of what a path leads to;
* `FileSystem.notePaths`: taking note of a list of paths.
-/

namespace BuildScript.Files

/-- The paths on the way to a path, with itself as the last one. -/
def ancestors (path : Bytes) : List Bytes :=
  let slash : Bytes := [Path.Style.slash]
  let first := if isAbsolute path then slash else []
  (List.range (names path).length).map fun n =>
    first ++ (((names path).take (n + 1)).intersperse slash).flatten

namespace FileSystem

/-- Where a path leads through no links. -/
def place (fs : FileSystem) (path : Bytes) : Location :=
  (names path).foldl (fun loc name =>
    if name = dotName then loc else if name = dotDotName then loc.dropLast else loc ++ [name])
    (start path fs.cwd)

/-- Takes note of a file and its content. -/
def noteFile (fs : FileSystem) (path content : Bytes) : FileSystem :=
  fs.setContentAt (fs.place path) content

/-- Takes note of a directory. What is known of its entries stays. -/
def noteDir (fs : FileSystem) (path : Bytes) : FileSystem :=
  match fs.root.at? (fs.place path) with
  | some (.dir _) => fs
  | _ => { fs with root := fs.root.set (.dir []) (fs.place path) }

/-- Takes note of paths, of which those that end in a separator are directories. A file whose
content is known keeps it. -/
def notePaths (fs : FileSystem) (paths : List Bytes) : FileSystem :=
  paths.foldl (fun fs path =>
    if asksForDir path then fs.noteDir path
    else if (fs.root.at? (fs.place path)).isSome then fs
    else fs.noteFile path []) fs

end FileSystem

end BuildScript.Files
