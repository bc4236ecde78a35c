import BuildScript.Proofs.Files.Relisted
import BuildScript.Proofs.Session.Telling
import Mathlib.Data.List.Permutation

/-!
# Sessions on trees in another order

The order in which a system lists directories is nothing that a session can show: walks find and
list the same, the parent is told the same, and a whole evaluation comes to the same, with the same
rules and the same records.

* `Channels.withFiles`: the same channels with other files;
* `Channels.expand_withFiles`: a pattern, with what the parent is told of it;
* `Channels.answers_withFiles`, `Channels.evaluateRun_withFiles`: all requests, and whole evaluations;
* `Channels.walks_and_records_alike`: all of it.
-/

namespace BuildScript

open Files Deps Script Glob BuildScript.Path

namespace Channels

variable {ω : Type}

/-- The same channels with other files. -/
@[simps]
def withFiles (c : Channels ω) (files : ω → FileSystem) : Channels ω := { c with files }

section
variable {c : Channels ω} {files : ω → FileSystem}

/-- A pattern finds the same, and the same is told of it. -/
theorem expand_withFiles (h : ∀ w, SameDirectories (c.files w).list (files w).list)
    (pattern : Bytes) (s : Session ω) :
    (c.withFiles files).expand pattern s = c.expand pattern s := by
  have hwalk := walk_congr (open?_eq_of_sameDirectories (h s.world)) c.style c.depth pattern
  simp only [expand, withFiles_files, withFiles_style, withFiles_depth, hwalk]
  rfl

section
variable (h : ∀ w, (c.files w).Relisted (files w))
include h

theorem answers_withFiles : (c.withFiles files).answers = c.answers := by
  funext q s
  cases q with
  | expand pattern => exact expand_withFiles (fun w => (h w).sameDirectories) pattern s
  | probe path => exact Prod.ext ((h s.world).canOpen_eq path).symm rfl
  | load path =>
    simp only [answers, load, withFiles_files, ← (h s.world).read_eq path]
    rfl
  | emit rule => rfl
  | report path => rfl

theorem perform_withFiles {α : Type} (x : Run α) (store : Store) (s : Session ω) :
    (c.withFiles files).perform x store s = c.perform x store s := by
  rw [perform, perform, answers_withFiles h]

theorem evaluateRun_withFiles (script : Run Unit) (o : Options) (w : ω) :
    (c.withFiles files).evaluateRun script o w = c.evaluateRun script o w := by
  simp only [evaluateRun, perform_withFiles h]
  rfl

end

end

/-! ## All of it -/

/-- Listings with the same entries in different orders cannot be told apart. With the same budget a
walk on one of them has a result if a walk on the other has one, and the two have the same events in
the same order; so a list of patterns finds the same. In a session the parent is told the same of
each pattern, and where files are read as well, a whole evaluation comes to the same end and leaves
the same rules and records. -/
theorem walks_and_records_alike :
    (∀ list other : Listing, SameDirectories list other → ∀ style budget,
      (∀ pattern, walk list style budget pattern = walk other style budget pattern) ∧
      ∀ patterns, Glob.glob list style budget patterns = Glob.glob other style budget patterns) ∧
    ∀ {ω : Type} (c : Channels ω) (files : ω → FileSystem),
      ((∀ w, SameDirectories (c.files w).list (files w).list) → ∀ pattern s,
        (c.withFiles files).expand pattern s = c.expand pattern s) ∧
      ((∀ w, (c.files w).Relisted (files w)) → ∀ steps o source w,
        (c.withFiles files).evaluate steps o source w = c.evaluate steps o source w) := by
  refine ⟨fun list other hsame style budget => ?_, fun c files => ⟨?_, ?_⟩⟩
  · have hopen := open?_eq_of_sameDirectories hsame
    exact ⟨walk_congr hopen style budget, glob_congr hopen style budget⟩
  · intro hsame
    exact expand_withFiles hsame
  · intro hrelisted
    exact fun steps o source => evaluateRun_withFiles hrelisted (o.program steps source) o

/-- Two files, and a directory with a file in it. -/
def someTree : FileSystem :=
  ⟨.dir [(Bytes.ofAscii "b.c", .file []), (Bytes.ofAscii "a.c", .file []),
    (Bytes.ofAscii "d", .dir [(Bytes.ofAscii "e.c", .file [])])], []⟩

/-- The same tree, with the two files in the other order. -/
def swappedTree : FileSystem :=
  ⟨.dir [(Bytes.ofAscii "a.c", .file []), (Bytes.ofAscii "b.c", .file []),
    (Bytes.ofAscii "d", .dir [(Bytes.ofAscii "e.c", .file [])])], []⟩

theorem someTree_relisted : someTree.Relisted swappedTree := by
  refine FileSystem.relisted_of_perm (Node.proper_dir (by decide) (by decide) ?_) (.swap _ _ _)
  have hbelow : (Node.dir [(Bytes.ofAscii "e.c", .file [])]).Proper :=
    Node.proper_singleton (by decide) (Node.proper_file [])
  simp [hbelow, Node.proper_file]

/-- Channels on which everything is stored. -/
def storing (fs : FileSystem) : Channels (LimitedOutput × LimitedOutput) :=
  telling .posix (fun _ => fs) LimitedOutput.sink LimitedOutput.sink 2

/-- All files in C are looked for. -/
def lookForFiles (fs : FileSystem) : Option (List Bytes) × Session (LimitedOutput × LimitedOutput) :=
  (storing fs).expand (Bytes.ofAscii "**/*.c")
    ⟨(.empty none false, .empty none false), ⟨0, false⟩, []⟩

theorem list_someTree : someTree.list (Bytes.ofAscii ".") =
    some [⟨Bytes.ofAscii "b.c", false⟩, ⟨Bytes.ofAscii "a.c", false⟩,
      ⟨Bytes.ofAscii "d", true⟩] := by cbv

theorem list_swappedTree : swappedTree.list (Bytes.ofAscii ".") =
    some [⟨Bytes.ofAscii "a.c", false⟩, ⟨Bytes.ofAscii "b.c", false⟩,
      ⟨Bytes.ofAscii "d", true⟩] := by cbv

/-- The directories that are listed for them: each is entered and searched. -/
def lookedInto : List Record :=
  [".", ".", "d", "d"].map fun dir => .input (Bytes.ofAscii dir)

theorem lookForFiles_someTree :
    ((lookForFiles someTree).1, (lookForFiles someTree).2.world.2.stored) =
      (some (["a.c", "b.c", "d/e.c"].map Bytes.ofAscii), lookedInto.flatMap Record.encode) := by
  cbv

/-- The two files are listed in different orders, but found and told of in the same. So it is in
a whole evaluation of a script that looks for them. -/
theorem walks_and_records_alike_swapped :
    let source := Bytes.ofAscii
      "for _, f in ipairs(glob '**/*.c') do rule\x7btask=\x7bf\x7d\x7d end"
    let o : Options := ⟨Bytes.ofAscii "x.lua", some (Bytes.ofAscii "out"), []⟩
    let w : LimitedOutput × LimitedOutput := (.empty none false, .empty none false)
    someTree.list (Bytes.ofAscii ".") ≠ swappedTree.list (Bytes.ofAscii ".") ∧
    walk someTree.list .posix 2 (Bytes.ofAscii "**/*.c") =
      walk swappedTree.list .posix 2 (Bytes.ofAscii "**/*.c") ∧
    (lookForFiles swappedTree).1 = some (["a.c", "b.c", "d/e.c"].map Bytes.ofAscii) ∧
    (lookForFiles swappedTree).2.world.2.stored = lookedInto.flatMap Record.encode ∧
    (storing swappedTree).evaluate 60 o source w = (storing someTree).evaluate 60 o source w := by
  intro source o w
  obtain ⟨hwalks, hsessions⟩ := walks_and_records_alike
  have hsame : ∀ _ : LimitedOutput × LimitedOutput,
      SameDirectories someTree.list swappedTree.list := fun _ => someTree_relisted.sameDirectories
  obtain ⟨hwalk, -⟩ := hwalks _ _ someTree_relisted.sameDirectories .posix 2
  obtain ⟨hexpand, hevaluate⟩ := hsessions (storing someTree) fun _ => swappedTree
  have hlook : lookForFiles swappedTree = lookForFiles someTree := hexpand hsame _ _
  obtain ⟨hfound, htold⟩ := Prod.mk.inj lookForFiles_someTree
  refine ⟨?_, hwalk _, ?_, ?_, ?_⟩
  · rw [list_someTree, list_swappedTree]
    decide
  · rw [hlook, hfound]
  · rw [hlook, htold]
  · exact hevaluate (fun _ => someTree_relisted) 60 o source w

end Channels

end BuildScript
