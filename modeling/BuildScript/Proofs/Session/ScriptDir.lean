import BuildScript.Proofs.Glob.Inside
import BuildScript.Proofs.Glob.Walking
import BuildScript.Proofs.Script.Entering
import BuildScript.Proofs.Session.Globbing

/-!
# The directory of a script

A script names its directory before it runs, and a glob puts the directory in front of every
pattern. So a pattern means the same wherever the script is, unless the name of the directory is
taken for a pattern as well.

* `Environment.scriptDir_entered`: the directory that a script names;
* `FileSystem.collect_within`: what a pattern finds behind a directory whose name is plain;
* `Channels.glob_pattern_run`: a call with one pattern;
* `Channels.glob_in_scriptDir`: against the paths that the pattern finds in the directory.
-/

namespace BuildScript

open Files Deps Script Glob BuildScript.Path

/-! ## Entering -/

/-- A script that is entered names its directory. -/
theorem Script.Environment.scriptDir_entered (s : Store) (packages : Nat) (path script : Bytes)
    (inside : s.globals < s.tables.size) :
    (entered s packages path script).style = s.style ∧
      (entered s packages path script).field (entered s packages path script).globals
        Library.scriptDirName = .string (s.style.dirname script) := by
  refine ⟨rfl, ?_⟩
  -- the search directory of modules is another field, and reading changes none
  have other : (entered s packages path script).field s.globals Library.scriptDirName = _ :=
    Store.field_setField_of_ne _ rfl fun _ => by decide
  refine other.trans ?_
  refine (Store.rawGet_readTable ..).trans ?_
  exact (Store.rawGet_readTable ..).trans (Store.field_setField inside rfl)

/-- The first store when a script has been entered. -/
theorem Script.Environment.enter_start (steps : Nat) (script : Bytes) :
    ∃ store : Store, enter (Evaluator.host (steps + 1)) script (start .posix) =
        .done (.value (), store) ∧
      store.style = .posix ∧
      store.field store.globals Library.scriptDirName =
        .string (Style.posix.dirname script) := by
  obtain ⟨hpackages, hpath⟩ := start_fields .posix
  have inside : (start .posix).globals < (start .posix).tables.size :=
    Store.lt_size_of_field (by rw [hpackages]; exact Value.noConfusion)
  obtain ⟨hstyle, hfield⟩ := scriptDir_entered (start .posix) Place.packages.id
    (Bytes.ofAscii defaultPath) script inside
  exact ⟨_, enter_of_fields hpackages hpath steps script, hstyle, hfield⟩

/-! ## Trees -/

/-- The limits keep no directory from being listed that is listed from inside and that a pattern
asks for behind a directory at this location. -/
def Files.FileSystem.ListsBehind (fs : FileSystem) (dir : Bytes) (loc : Location)
    (depth : Nat) (pattern : Bytes) : Prop :=
  ∀ path, Style.posix.isAbsolute path = false →
    listingPath (Style.posix.within dir path) ∈
      askedDirs fs.list .posix depth (Style.posix.within dir pattern) →
    ((fs.inside loc).list (listingPath path)).isSome →
    fs.WithinLimits (listingPath (Style.posix.within dir path))

/-- A pattern behind the path of a directory finds what it finds in the directory. -/
theorem Files.FileSystem.collect_within {fs : FileSystem} {dir pattern : Bytes} {loc : Location}
    {entries : List (Bytes × Node)} (hroot : fs.root.Proper)
    (hdir : fs.lookup (listingPath dir) = .ok (loc, .dir entries))
    (hform : Style.posix.needsSep dir = true ∨ ∀ b ∈ dir, Style.posix.isSep b = true)
    (hplain : isGlob dir = false) (hpattern : Style.posix.isAbsolute pattern = false)
    (hglob : isGlob pattern = true) (hends : Style.posix.needsSep pattern = true) {depth : Nat}
    (hlimits : fs.ListsBehind dir loc depth pattern)
    {found : List Bytes}
    (hfound : collect (fs.inside loc).list .posix depth pattern = some found) :
    collect fs.list .posix depth (Style.posix.within dir pattern) =
        some (found.map (Style.posix.within dir)) ∧
      ∀ path ∈ found, Style.posix.isAbsolute path = false :=
  Glob.collect_within hform hplain hpattern hglob hends
    (properAnswer_list (by rwa [FileSystem.root_inside]))
    (fun path hpath hasked => FileSystem.list_within hdir hpath (hlimits path hpath hasked)) hfound

namespace Channels

variable {ρ δ : Type} (rules : Sink ρ) (sender : Sender δ)

/-- A call with one pattern gives a table of the paths that are found behind the directory of the
script. -/
theorem glob_pattern_run (files : ρ → FileSystem) {fs : FileSystem} {dir pattern : Bytes}
    {depth : Nat} {found : List Bytes} (hdirSign : dir.head? ≠ some bang)
    (hsign : pattern.head? ≠ some bang) (hne : pattern ≠ [])
    (hpattern : Style.posix.isAbsolute pattern = false)
    (hfound : collect fs.list .posix depth (Style.posix.within dir pattern) = some found)
    (steps : Nat) {store : Store} (hstyle : store.style = .posix)
    (hdir : store.field store.globals Library.scriptDirName = .string dir)
    {s : Session (ρ × δ)} (hfiles : files s.world.1 = fs) :
    let c := beside .posix files rules sender depth
    ∃ (id : Nat) (after : Store) (set : MatchSet),
      ((Library.glob (Evaluator.host (steps + 1)) [.string pattern] store).run c.answers s).1 =
        (.value [.table id], after) ∧
      after.table id = Table.ofList (set.paths.map .string) ∧
      ∀ path, path ∈ set.paths ↔ path ∈ found := by
  intro c
  have hread : rebase .posix dir pattern = Style.posix.within dir pattern := by
    rw [rebase, Signed.read_plain hsign, Style.within_of_ne_nil hne]
    rfl
  have hbehind : (Style.posix.within dir pattern).head? ≠ some bang := by
    by_cases hnil : dir = []
    · rw [hnil, Style.within_of_ne_nil hne, Style.join_nil_left]
      exact hsign
    · rw [Style.within_eq hpattern hne, List.head?_append_of_ne_nil _ hnil]
      exact hdirSign
  have hwhole := Signed.read_plain hbehind
  have hgiven : Library.leading (store.amongst [.string pattern]) = ([pattern], none) := rfl
  obtain ⟨events, hwalk, -⟩ := Option.map_eq_some_iff.1 hfound
  have hwalks : walks fs.list store.style depth
      ((Library.leading (store.amongst [.string pattern])).1.map (rebase store.style dir)) =
        some [events] := by
    rw [hgiven, hstyle, List.map_singleton, hread]
    exact walks_cons_eq_some_iff.2 ⟨events, [], by rw [hwhole]; exact hwalk, rfl, rfl⟩
  obtain ⟨-, hdone, -⟩ := glob_run rules sender steps [.string pattern]
    (by rw [hdir]; rfl) hfiles hwalks
  obtain ⟨paths, id, after, hpaths, hvalue, htable⟩ := hdone (by rw [hgiven])
  obtain ⟨set, hset, hmem⟩ := glob_singleton hwhole hfound
  rw [hgiven, hstyle, List.map_singleton, hread, hset] at hpaths
  obtain rfl := Option.some.inj hpaths
  rw [hstyle] at hvalue
  exact ⟨id, after, set, hvalue, htable, hmem⟩

/-- A script that is entered names its directory. From then on, and as long as no byte of that name
is a wildcard, a glob of the script gives exactly what the pattern finds with the directory of the
script as the current one, seen from outside. So all of it is in that directory. Only the limits of
the system could keep a directory from being listed that is listed from inside. -/
theorem glob_in_scriptDir (files : ρ → FileSystem) (fs : FileSystem) (script pattern : Bytes)
    {loc : Location} {entries : List (Bytes × Node)} (hroot : fs.root.Proper)
    (hdir : fs.lookup (listingPath (Style.posix.dirname script)) = .ok (loc, .dir entries))
    (hplain : isGlob (Style.posix.dirname script) = false)
    (hdirSign : (Style.posix.dirname script).head? ≠ some bang)
    (hpattern : Style.posix.isAbsolute pattern = false) (hglob : isGlob pattern = true)
    (hsign : pattern.head? ≠ some bang) (hends : Style.posix.needsSep pattern = true)
    (hlimits : fs.ListsBehind (Style.posix.dirname script) loc fs.root.height pattern) :
    let dir := Style.posix.dirname script
    (∀ steps, ∃ store : Store,
      Environment.enter (Evaluator.host (steps + 1)) script (Environment.start .posix) =
        .done (.value (), store) ∧
      store.style = .posix ∧ store.field store.globals Library.scriptDirName = .string dir) ∧
    ∃ found, ∀ depth, fs.root.height ≤ depth →
      collect (fs.inside loc).list .posix depth pattern = some found ∧
      ∀ (steps : Nat) (store : Store), store.style = .posix →
        store.field store.globals Library.scriptDirName = .string dir →
        ∀ s : Session (ρ × δ), files s.world.1 = fs →
        let c := beside .posix files rules sender depth
        ∃ (id : Nat) (after : Store) (set : MatchSet),
          ((Library.glob (Evaluator.host (steps + 1)) [.string pattern] store).run
            c.answers s).1 = (.value [.table id], after) ∧
          after.table id = Table.ofList (set.paths.map .string) ∧
          (∀ path, path ∈ set.paths ↔ ∃ x ∈ found, path = Style.posix.within dir x) ∧
          ∀ path ∈ set.paths, dir <+: path := by
  intro dir
  constructor
  · exact fun steps => Environment.enter_start steps script
  · have hne : pattern ≠ [] := by
      rintro rfl
      cases hglob
    have hinner : (fs.inside loc).root.Proper := hroot
    obtain ⟨events, hwalk⟩ := Option.isSome_iff_exists.1 (walk_ends hinner pattern)
    have hcollect : ∀ depth, fs.root.height ≤ depth →
        collect (fs.inside loc).list .posix depth pattern = some (foundPaths events) := by
      intro depth hdepth
      rw [collect, walk_mono hdepth hwalk]
      rfl
    obtain ⟨houter, hrelative⟩ := FileSystem.collect_within hroot hdir
      (Style.posix.dirname_cases script) hplain hpattern hglob hends hlimits
      (hcollect _ (Nat.le_refl _))
    obtain ⟨events', hwalk', hpaths⟩ := Option.map_eq_some_iff.1 houter
    refine ⟨foundPaths events, fun depth hdepth => ⟨hcollect depth hdepth, ?_⟩⟩
    intro steps store hstyle hfield s hfiles c
    have hmore : collect fs.list .posix depth (Style.posix.within dir pattern) =
        some ((foundPaths events).map (Style.posix.within dir)) := by
      rw [collect, walk_mono hdepth hwalk', Option.map_some, hpaths]
    obtain ⟨id, after, set, hvalue, htable, hmem⟩ := glob_pattern_run rules sender files hdirSign
      hsign hne hpattern hmore steps hstyle hfield hfiles
    have hwithin : ∀ path, path ∈ set.paths ↔
        ∃ x ∈ foundPaths events, path = Style.posix.within dir x := by
      intro path
      rw [hmem, List.mem_map]
      simp only [eq_comm]
    refine ⟨id, after, set, hvalue, htable, hwithin, ?_⟩
    intro path hpath
    obtain ⟨x, hx, rfl⟩ := (hwithin path).1 hpath
    exact Style.within_startsWith (hrelative x hx)

def inD : Bytes := Bytes.ofAscii "d/build.lua"

def anyC : Bytes := Bytes.ofAscii "*.c"

theorem oneFile_proper : oneFile.root.Proper :=
  Node.proper_singleton (by decide) (Node.proper_singleton (by decide) (Node.proper_file _))

theorem oneFile_lookup : oneFile.lookup (listingPath (Style.posix.dirname inD)) =
    .ok ([Bytes.ofAscii "d"], .dir [(Bytes.ofAscii "a.c", .file [])]) := by
  have hdir : listingPath (Style.posix.dirname inD) = Bytes.ofAscii "d" := by decide
  rw [hdir]
  exact FileSystem.lookup_name rfl (by decide) rfl nofun (by decide) (by decide)

theorem oneFile_listsBehind (depth : Nat) :
    oneFile.ListsBehind (Style.posix.dirname inD) [Bytes.ofAscii "d"] depth anyC := by
  intro path _ hasked _
  have hself : listingPath (Style.posix.split (Style.posix.within (Style.posix.dirname inD)
      anyC)).head = listingPath (Style.posix.dirname inD) := by decide
  rw [askedDirs, Search.asked_ofPattern_of_isGlob_tail (by decide) (by decide)
    (by decide), hself, List.mem_singleton] at hasked
  rw [hasked]
  exact FileSystem.withinLimits_of_lookup oneFile_lookup

theorem collect_anyC {fs : FileSystem} {loc : Location}
    (hat : fs.root.at? loc = some (.dir [(Bytes.ofAscii "a.c", .file [])])) (depth : Nat) :
    collect (fs.inside loc).list .posix depth anyC = some [Bytes.ofAscii "a.c"] := by
  have hparts : Style.posix.split anyC = ⟨[], anyC⟩ := by decide
  have hproper : (Node.dir [(Bytes.ofAscii "a.c", .file [])]).Proper := by
    refine Node.proper_dir (by decide) (by decide) ?_
    simp only [List.mem_singleton, forall_eq]
    exact Node.proper_file _
  have hlookup : (fs.inside loc).lookup (listingPath (Style.posix.split anyC).head) =
      .ok (loc, .dir [(Bytes.ofAscii "a.c", .file [])]) := by
    rw [hparts]
    exact FileSystem.lookup_cwd hat
  rw [collect_segment (by decide) (by decide) (by decide) hlookup
    hproper, hparts]
  cbv

theorem glob_in_scriptDir_oneFile :
    oneFile.root.Proper ∧
    oneFile.lookup (listingPath (Style.posix.dirname inD)) =
      .ok ([Bytes.ofAscii "d"], .dir [(Bytes.ofAscii "a.c", .file [])]) ∧
    oneFile.ListsBehind (Style.posix.dirname inD) [Bytes.ofAscii "d"] oneFile.root.height anyC ∧
    ∃ (store : Store) (id : Nat) (after : Store) (set : MatchSet),
      ((Library.glob (Evaluator.host 1) [.string anyC] store).run
        (beside .posix (fun _ => oneFile) LimitedOutput.sink (.toSink LimitedOutput.sink)
          oneFile.root.height).answers
        ⟨(.empty none false, .empty none false), ⟨0, false⟩, []⟩).1 = (.value [.table id], after) ∧
      after.table id = Table.ofList (set.paths.map .string) ∧
      ∀ path, path ∈ set.paths ↔ path = Bytes.ofAscii "d/a.c" := by
  refine ⟨oneFile_proper, oneFile_lookup, oneFile_listsBehind _, ?_⟩
  obtain ⟨hstores, found, hall⟩ := glob_in_scriptDir LimitedOutput.sink
    (.toSink LimitedOutput.sink) (fun _ => oneFile) oneFile inD anyC oneFile_proper oneFile_lookup
    (by decide) (by decide) (by decide) (by decide)
    (by decide) (by decide) (oneFile_listsBehind _)
  obtain ⟨store, -, hstyle, hfield⟩ := hstores 0
  obtain ⟨hcollect, hcall⟩ := hall _ (Nat.le_refl _)
  obtain ⟨id, after, set, hvalue, htable, hmem, -⟩ := hcall 0 store hstyle hfield
    ⟨(.empty none false, .empty none false), ⟨0, false⟩, []⟩ rfl
  refine ⟨store, id, after, set, hvalue, htable, fun path => ?_⟩
  have hone : Style.posix.within (Style.posix.dirname inD) (Bytes.ofAscii "a.c") =
      Bytes.ofAscii "d/a.c" := by decide
  obtain rfl := Option.some.inj ((collect_anyC rfl _).symm.trans hcollect)
  rw [hmem]
  simp only [List.mem_singleton, exists_eq_left, hone]

/-- A directory whose name is a pattern, beside one that the pattern matches. -/
def starTree : FileSystem where
  root := .dir [
    (Bytes.ofAscii "s*", .dir [(Bytes.ofAscii "a.c", .file [])]),
    (Bytes.ofAscii "sx", .dir [(Bytes.ofAscii "b.c", .file [])])]
  cwd := []

def inStar : Bytes := Bytes.ofAscii "s*/build.lua"

theorem starTree_proper : starTree.root.Proper := by
  refine Node.proper_dir (by decide) (by decide) ?_
  simp only [List.mem_cons, List.not_mem_nil, or_false, forall_eq_or_imp, forall_eq]
  constructor
  all_goals exact Node.proper_singleton (by decide) (Node.proper_file _)

theorem starTree_lookup : starTree.lookup (listingPath (Style.posix.dirname inStar)) =
    .ok ([Bytes.ofAscii "s*"], .dir [(Bytes.ofAscii "a.c", .file [])]) := by
  have hdir : listingPath (Style.posix.dirname inStar) = Bytes.ofAscii "s*" := by decide
  rw [hdir]
  exact FileSystem.lookup_name rfl (by decide) rfl nofun (by decide) (by decide)

theorem starTree_opens (node : Node) (hnode : node ∈ starTree.dirAt? []) :
    OpensBelow starTree.list [] node := by
  have hroot : starTree.lookup (listingPath []) = .ok ([], starTree.root) :=
    FileSystem.lookup_cwd rfl
  obtain ⟨loc, entries, hlookup, rfl⟩ := FileSystem.dirAt?_eq_some_iff.1 hnode
  obtain ⟨rfl, hentries⟩ := Prod.mk.inj (Except.ok.inj (hroot.symm.trans hlookup))
  rw [← hentries]
  refine opensBelow_of_fits hroot starTree_proper ?_
  intro names children hne hat
  have hmem : ⟨names, true⟩ ∈ starTree.root.contents :=
    (Node.mem_contents starTree_proper).2 ⟨hne, _, hat, rfl⟩
  have hnames : names = [Bytes.ofAscii "s*"] ∨ names = [Bytes.ofAscii "sx"] := by
    simpa [starTree, Node.mem_contents_dir, Node.contents_file, Descendant.ofEntry,
      Descendant.under, Node.isDir] using hmem
  rcases hnames with rfl | rfl
  · exact ⟨by decide, by decide⟩
  · exact ⟨by decide, by decide⟩

/-- The name of the directory is a pattern for the other one as well, so the glob gives a file that
is not in the directory. -/
theorem glob_out_of_scriptDir :
    starTree.root.Proper ∧
    starTree.lookup (listingPath (Style.posix.dirname inStar)) =
      .ok ([Bytes.ofAscii "s*"], .dir [(Bytes.ofAscii "a.c", .file [])]) ∧
    (Style.posix.dirname inStar).head? ≠ some bang ∧
    Style.posix.isAbsolute anyC = false ∧ isGlob anyC = true ∧ anyC.head? ≠ some bang ∧
    Style.posix.needsSep anyC = true ∧
    ∃ (store : Store) (id : Nat) (after : Store) (set : MatchSet),
      Environment.enter (Evaluator.host 1) inStar (Environment.start .posix) =
        .done (.value (), store) ∧
      ((Library.glob (Evaluator.host 1) [.string anyC] store).run
        (beside .posix (fun _ => starTree) LimitedOutput.sink (.toSink LimitedOutput.sink)
          starTree.root.height).answers
        ⟨(.empty none false, .empty none false), ⟨0, false⟩, []⟩).1 = (.value [.table id], after) ∧
      after.table id = Table.ofList (set.paths.map .string) ∧
      collect (starTree.inside [Bytes.ofAscii "s*"]).list .posix starTree.root.height anyC =
        some [Bytes.ofAscii "a.c"] ∧
      Bytes.ofAscii "sx/b.c" ∈ set.paths ∧
      Bytes.ofAscii "sx/b.c" ≠
        Style.posix.within (Style.posix.dirname inStar) (Bytes.ofAscii "a.c") ∧
      ¬ Style.posix.dirname inStar <+: Bytes.ofAscii "sx/b.c" := by
  have hdirSign : (Style.posix.dirname inStar).head? ≠ some bang := by decide
  have hpattern : Style.posix.isAbsolute anyC = false := by decide
  have hsign : anyC.head? ≠ some bang := by decide
  have hbehind : Style.posix.within (Style.posix.dirname inStar) anyC = Bytes.ofAscii "s*/*.c" := by
    decide
  have hglobDir : globDir .posix (Bytes.ofAscii "s*/*.c") = [] := by decide
  have hsegments : globSegments .posix (Bytes.ofAscii "s*/*.c") =
      [Bytes.ofAscii "s*", anyC] := by decide
  -- the other directory is on a way that the whole pattern takes
  obtain ⟨events, hfounds, hwalk⟩ := walk_eq_ways starTree_proper
    (show isGlob (Bytes.ofAscii "s*/*.c") = true by decide)
    (by rw [hglobDir]; exact starTree_opens)
  have hbase : starTree.dirAt? [] = some starTree.root :=
    FileSystem.dirAt?_eq_some_iff.2 ⟨[], _, FileSystem.lookup_cwd rfl, rfl⟩
  have hway : (⟨[[Bytes.ofAscii "sx"], [Bytes.ofAscii "b.c"]], false⟩ : Way) ∈
      ways (starTree.dirAt? []) [Bytes.ofAscii "s*", anyC] := by
    refine (mem_ways (opened_dirAt? starTree_proper)).2 ?_
    rw [hbase]
    refine ⟨.cons ?_ (.cons ?_ .nil), ⟨.file [], rfl, rfl⟩, nofun⟩
    · exact .one (by decide) (by decide) (by cbv)
    · exact .one (by decide) (by decide) (by cbv)
  have hfound : Bytes.ofAscii "sx/b.c" ∈ foundPaths events := by
    rw [← map_fst_founds, hfounds, hglobDir, hsegments, List.map_map]
    exact List.mem_map.2 ⟨_, hway, by decide⟩
  have hcollect : collect starTree.list .posix starTree.root.height
      (Style.posix.within (Style.posix.dirname inStar) anyC) = some (foundPaths events) := by
    rw [hbehind, collect, hwalk _ (Nat.le_refl _)]
    rfl
  obtain ⟨store, henter, hstyle, hfield⟩ := Environment.enter_start 0 inStar
  obtain ⟨id, after, set, hvalue, htable, hmem⟩ := glob_pattern_run LimitedOutput.sink
    (.toSink LimitedOutput.sink) (fun _ => starTree) hdirSign hsign (by decide) hpattern
    hcollect 0 hstyle hfield (s := ⟨(.empty none false, .empty none false), ⟨0, false⟩, []⟩) rfl
  exact ⟨starTree_proper, starTree_lookup, hdirSign, hpattern, by decide, hsign,
    by decide, store, id, after, set, henter, hvalue, htable, collect_anyC rfl _,
    (hmem _).2 hfound, by decide, by decide⟩

end Channels

end BuildScript
