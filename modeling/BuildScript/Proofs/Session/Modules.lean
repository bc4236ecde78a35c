import BuildScript.Proofs.Files.Writing
import BuildScript.Proofs.Script.Requiring
import BuildScript.Proofs.Session.Telling

/-!
# Modules beside a script

A script that is entered puts its own directory in front of the places where modules are looked
for. So a module beside the script is found before any other, wherever the script is and whatever
else there is, unless the name of the directory is taken for templates.

* `Channels.Loads`: what a call does for which a file is loaded and told of;
* `Channels.loads_of_candidates`: of the candidates it is the first one that can be opened;
* `Channels.exists_told_run`, `Channels.Loads.delivered_eq`: what the parent is told it stays told,
  so only one file is loaded;
* `Channels.require_beside_script`: which one that is in a script;
* `Channels.require_elsewhere`: a directory that is taken for a template.
-/

namespace BuildScript

open Files Deps Script BuildScript.Path

/-! ## Files -/

namespace Files.FileSystem

variable {fs : FileSystem} {path source : Bytes}

theorem exists_lookup_of_read (h : fs.read path = .ok source) :
    ∃ found, fs.lookup path = .ok found := by
  rw [read] at h
  cases hlookup : fs.lookup path with
  | error e =>
    rw [hlookup] at h
    cases h
  | ok found => exact ⟨found, rfl⟩

theorem canOpen_of_read (h : fs.read path = .ok source) : fs.canOpen path = true := by
  obtain ⟨found, hlookup⟩ := exists_lookup_of_read h
  rw [canOpen, hlookup]
  rfl

theorem nul_not_mem_of_read (h : fs.read path = .ok source) : (0 : UInt8) ∉ path := by
  obtain ⟨⟨loc, node⟩, hlookup⟩ := exists_lookup_of_read h
  exact (refused?_eq_none_iff.1 (lookup_eq_ok_iff.1 hlookup).1).1

theorem read_of_lookup {loc : Location} (h : fs.lookup path = .ok (loc, .file source)) :
    fs.read path = .ok source := by
  rw [read, h]
  rfl

/-- The path of a directory with a name that it does not have cannot be opened. -/
theorem canOpen_join_of_missing {loc : Location} {entries : List (Bytes × Node)} {name : Bytes}
    (hdir : fs.lookup (Glob.listingPath path) = .ok (loc, .dir entries)) (hname : ProperName name)
    (hlength : name.length ≤ maxName) (hchild : child? entries name = none) :
    fs.canOpen (Style.posix.join path name) = false := by
  obtain ⟨-, -, hat⟩ := lookup_eq_ok_iff.1 hdir
  obtain ⟨left, hleft⟩ := follow_names hdir
  cases hlookup : fs.lookup (Style.posix.join path name) with
  | error e =>
    rw [canOpen, hlookup]
    rfl
  | ok found =>
    -- the path leads to the place of the name, and there is nothing
    obtain ⟨-, hthere, hfound⟩ := lookup_eq_ok_iff.1 hlookup
    rw [hname.start_join, hname.steps_join, hleft,
      follow_missing hat hname hlength hchild] at hthere
    rw [← Except.ok.inj hthere, Node.at?_append, hat, Option.bind_some, Node.at?_dir,
      hchild] at hfound
    cases hfound

end Files.FileSystem

namespace Channels

open Script.Library

variable {ω : Type} (c : Channels ω)

/-- What a call of `require` does for which this file is loaded: the parent is told of it, a
function is made of what is in it, and that is called and what it gives is kept, on a store that is
as before but for the tables that were looked at. -/
def Loads (steps : Nat) (name file source : Bytes) (store : Store) (s : Session ω) : Prop :=
  let h := Evaluator.host steps
  ∃ t u, store.Looked t ∧
    c.perform (require h [.string name]) store s =
      match compile (store.nested + 1) file source with
      | .error fault => ((.raised (.fault fault), u), c.reportInput file s)
      | .ok body =>
        c.perform (Run.newProgram body (chunkName file) >>= fun loader =>
          keep h store.loaded name loader (.string file)) t (c.reportInput file s)

variable {c}

section
variable {fs : FileSystem} {store : Store} {packages : Nat} {path name : Bytes} {v : Value}

/-- Of the candidates the first one that can be opened is loaded. -/
theorem loads_of_candidates (hs : Searching store packages path) (hname : ModuleName name)
    {steps : Nat} (hloaded : store.Has steps store.loaded (.string name) v) (hv : v.isTrue = false)
    (hmissing : store.Has steps store.preloaded (.string name) .nil) (hroom : store.HasRoom 2)
    {before after : List Bytes} {file source : Bytes}
    (hfiles : candidates path.untilNul name = before ++ file :: after) {s : Session ω}
    (hfs : c.files s.world = fs) (hbefore : ∀ f ∈ before, fs.canOpen f = false)
    (hread : fs.read file = .ok source) :
    c.Loads (steps + 4) name file source store s := by
  have hprobe (f : Bytes) : c.answers (.probe f) s = (fs.canOpen f, s) := by
    rw [← hfs]
    rfl
  have hfinds : Finds c.answers s path name file := by
    refine ⟨before, after, hfiles, fun f hf => ?_, ?_⟩
    · rw [hprobe, hbefore f hf]
    · rw [hprobe, FileSystem.canOpen_of_read hread]
  have hload : c.answers (.load file) s = (.ok source, c.reportInput file s) := by
    rw [← hfs] at hread
    simp only [answers, load, hread]
  exact run_require hs hname hloaded hv hmissing hfinds hload hroom

end

/-! ## What the parent is told -/

section
variable {ρ δ : Type} {style : Style} {files : ρ → FileSystem} {rules : Sink ρ} {depth : Nat}
variable {sink : Sink δ} {sound : δ → Prop} {text : δ → Bytes} (h : sink.StoresAll sound text)
include h

theorem exists_told_answers (q : Request) {s : Session (ρ × δ)} (hs : sound s.world.2) :
    ∃ names, Told sound text names s ((telling style files rules sink depth).answers q s).2 := by
  by_cases hanswered : ∀ pattern, q = .expand pattern →
      ((telling style files rules sink depth).expand pattern s).1 ≠ none
  · exact ⟨_, answers_told style files rules depth h q hs hanswered⟩
  · -- nothing is told of a walk that does not end
    push Not at hanswered
    obtain ⟨pattern, rfl, hnone⟩ := hanswered
    refine ⟨[], ?_⟩
    simp only [answers, expand] at hnone ⊢
    split at hnone
    · exact .refl hs
    · cases hnone

/-- What the parent was told it stays told, and it is only told of more files. -/
theorem exists_told_run {α : Type} (x : Action α) {s : Session (ρ × δ)} (hs : sound s.world.2) :
    ∃ names, Told sound text names s
      (x.run (telling style files rules sink depth).answers s).2 := by
  induction x generalizing s with
  | done a => exact ⟨[], .refl hs⟩
  | ask q next ih =>
    obtain ⟨names, hnames⟩ := exists_told_answers h q hs
    obtain ⟨more, hmore⟩ := ih _ hnames.sound
    exact ⟨names ++ more, hnames.trans hmore⟩

variable {steps : Nat} {name file source : Bytes} {store : Store} {s : Session (ρ × δ)}

/-- Of the file that is loaded the parent is told first. -/
theorem Loads.told
    (hloads : (telling style files rules sink depth).Loads steps name file source store s)
    (hs : sound s.world.2) :
    ∃ names, Told sound text (file :: names) s
      ((telling style files rules sink depth).perform
        (require (Evaluator.host steps) [.string name]) store s).2 := by
  obtain ⟨t, u, -, hrequire⟩ := hloads
  have hfirst := reportInput_told style files rules depth h file hs
  rw [hrequire]
  cases compile (store.nested + 1) file source with
  | error fault => exact ⟨[], hfirst⟩
  | ok body =>
    obtain ⟨names, hmore⟩ := exists_told_run h _ hfirst.sound
    exact ⟨names, hfirst.trans hmore⟩

/-- A call does not load two files, as the parent would have been told of both of them first. -/
theorem Loads.delivered_eq
    (hloads : (telling style files rules sink depth).Loads steps name file source store s)
    (hs : sound s.world.2) {other content : Bytes}
    (hother : (telling style files rules sink depth).Loads steps name other content store s) :
    (Record.input file).delivered = (Record.input other).delivered := by
  obtain ⟨names, -, htext⟩ := hloads.told h hs
  obtain ⟨names', -, htext'⟩ := hother.told h hs
  have hrecords := congrArg decodeAll (List.append_cancel_left (htext.symm.trans htext'))
  rw [decodeAll_flatMap_encode, decodeAll_flatMap_encode] at hrecords
  exact (List.cons.inj (Prod.mk.inj hrecords).1).1

end

/-! ## Scripts -/

variable (c)

/-- A script that is entered finds its directory in front of the templates. From then on, and as
long as the name of the directory is not taken for templates, a module that is neither loaded nor
preloaded is the file beside the script with its name, if it can be read, and otherwise, if there is
no such file, the one in the directory with its name. Whatever other places of modules there are,
they are not looked at, and whatever directory is the current one makes no difference. Without room
for the calls that this takes nothing is asked for. -/
theorem require_beside_script (script name : Bytes) (hname : ModuleName name)
    (hdir : Untemplated (Style.posix.dirname script)) :
    let dir := Style.posix.dirname script
    let plain := Style.posix.join dir (name ++ Bytes.ofAscii ".lua")
    let init := Style.posix.join dir (name ++ Bytes.ofAscii "/init.lua")
    Searching (Environment.start .posix) Environment.Place.packages.id
      (Bytes.ofAscii Environment.defaultPath) ∧
    (∀ steps store packages others, store.style = .posix → Searching store packages others →
      ∃ store', Environment.enter (Evaluator.host (steps + 1)) script store =
          .done (.value (), store') ∧
        store'.style = .posix ∧ store'.frames = store.frames ∧
        Searching store' packages (Environment.searchDir .posix dir others)) ∧
    ∀ (steps : Nat) (store : Store) (packages : Nat) (others : Bytes) (v : Value),
      Searching store packages (Environment.searchDir .posix dir others) →
      store.Has steps store.loaded (.string name) v → v.isTrue = false →
      store.Has steps store.preloaded (.string name) .nil →
      ∀ s : Session ω,
        (¬ store.HasRoom 2 → ∃ v u,
          c.perform (require (Evaluator.host (steps + 4)) [.string name]) store s =
            ((.raised v, u), s)) ∧
        (store.HasRoom 2 → ∀ source,
          ((c.files s.world).read plain = .ok source →
            c.Loads (steps + 4) name plain source store s) ∧
          ((c.files s.world).canOpen plain = false → (c.files s.world).read init = .ok source →
            c.Loads (steps + 4) name init source store s)) := by
  intro dir plain init
  refine ⟨searching_start, ?_, ?_⟩
  · intro steps store packages others hstyle hs
    have hentered := hs.entered script
    rw [hstyle] at hentered
    exact ⟨_, Environment.enter_of_fields hs.package hs.path steps script, hstyle,
      Environment.frames_entered _ _ _ _, hentered⟩
  · intro steps store packages others v hs hloaded hv hmissing s
    constructor
    · intro hfull
      obtain ⟨v, u, hrequire⟩ := require_of_full hs hname hloaded hv hmissing hfull
      exact ⟨v, u, congrArg (Action.run c.answers · s) hrequire⟩
    · intro hroom source
      have hfiles (hnul : (0 : UInt8) ∉ dir) :
          ∃ more, candidates (Environment.searchDir .posix dir others).untilNul name =
            plain :: init :: more := by
        rw [untilNul_searchDir hnul]
        exact ⟨_, candidates_searchDir hdir hname others.untilNul⟩
      have hdirNul (tail : Bytes)
          (hread : (c.files s.world).read (Style.posix.join dir (name ++ tail)) = .ok source) :
          (0 : UInt8) ∉ dir := fun hmem =>
        FileSystem.nul_not_mem_of_read hread
          ((Style.mem_join (hname.isAbsolute tail)).2 (.inl hmem))
      constructor
      · intro hread
        obtain ⟨more, hmore⟩ := hfiles (hdirNul _ hread)
        have hfirst : candidates (Environment.searchDir .posix dir others).untilNul name =
            [] ++ plain :: (init :: more) := hmore
        exact loads_of_candidates hs hname hloaded hv hmissing hroom hfirst rfl (by simp) hread
      · intro hclosed hread
        obtain ⟨more, hmore⟩ := hfiles (hdirNul _ hread)
        have hsecond : candidates (Environment.searchDir .posix dir others).untilNul name =
            [plain] ++ init :: more := hmore
        exact loads_of_candidates hs hname hloaded hv hmissing hroom hsecond rfl
          (by simpa using hclosed) hread

/-- Modules in a directory, one of them a file and one a directory. -/
def twoModules : FileSystem where
  root := .dir [(Bytes.ofAscii "d", .dir [
    (Bytes.ofAscii "m.lua", .file (Bytes.ofAscii "return 1")),
    (Bytes.ofAscii "n", .dir [(Bytes.ofAscii "init.lua", .file (Bytes.ofAscii "return 2"))])])]
  cwd := []

theorem twoModules_reads :
    twoModules.read (Style.posix.join (Bytes.ofAscii "d") (Bytes.ofAscii "m.lua")) =
      .ok (Bytes.ofAscii "return 1") ∧
    twoModules.canOpen (Style.posix.join (Bytes.ofAscii "d") (Bytes.ofAscii "n.lua")) = false ∧
    twoModules.read (Style.posix.join (Bytes.ofAscii "d") (Bytes.ofAscii "n/init.lua")) =
      .ok (Bytes.ofAscii "return 2") := by
  have hdir : twoModules.lookup (Bytes.ofAscii "d") = .ok ([Bytes.ofAscii "d"], _) :=
    FileSystem.lookup_name rfl (by decide) rfl nofun (by decide) (by decide)
  have hinner : twoModules.lookup (Style.posix.join (Bytes.ofAscii "d") (Bytes.ofAscii "n")) =
      .ok (_, .dir [(Bytes.ofAscii "init.lua", .file (Bytes.ofAscii "return 2"))]) :=
    FileSystem.lookup_join hdir (by decide) rfl nofun (by decide) (by decide)
  have hplain : twoModules.lookup
      (Style.posix.join (Bytes.ofAscii "d") (Bytes.ofAscii "m.lua")) =
        .ok (_, .file (Bytes.ofAscii "return 1")) :=
    FileSystem.lookup_join hdir (by decide) rfl nofun (by decide) (by decide)
  have hinit : twoModules.lookup (Style.posix.join
      (Style.posix.join (Bytes.ofAscii "d") (Bytes.ofAscii "n")) (Bytes.ofAscii "init.lua")) =
        .ok (_, .file (Bytes.ofAscii "return 2")) :=
    FileSystem.lookup_join hinner (by decide) rfl nofun (by decide) (by decide)
  exact ⟨FileSystem.read_of_lookup hplain,
    FileSystem.canOpen_join_of_missing hdir (by decide) (by decide) rfl,
    FileSystem.read_of_lookup hinit⟩

/-- The first store when a script has been entered. -/
def enteredFirst (script : Bytes) : Store :=
  Environment.entered (Environment.start .posix) Environment.Place.packages.id
    (Bytes.ofAscii Environment.defaultPath) script

theorem enter_enteredFirst (script : Bytes) :
    Environment.enter (Evaluator.host 1) script (Environment.start .posix) =
      .done (.value (), enteredFirst script) :=
  Environment.enter_of_fields (Environment.start_fields .posix).1
    (Environment.start_fields .posix).2 0 script

theorem require_beside_script_twoModules :
    let script := Bytes.ofAscii "d/build.lua"
    let c := telling .posix (fun _ => twoModules) LimitedOutput.sink LimitedOutput.sink 0
    let s : Session (LimitedOutput × LimitedOutput) :=
      ⟨(.empty none false, .empty none false), ⟨0, false⟩, []⟩
    Untemplated (Style.posix.dirname script) ∧
    ModuleName (Bytes.ofAscii "m") ∧ ModuleName (Bytes.ofAscii "n") ∧
    ∃ store, Environment.enter (Evaluator.host 1) script (Environment.start .posix) =
        .done (.value (), store) ∧ store.HasRoom 2 ∧
      c.Loads 4 (Bytes.ofAscii "m") (Bytes.ofAscii "d/m.lua") (Bytes.ofAscii "return 1") store s ∧
      c.Loads 4 (Bytes.ofAscii "n") (Bytes.ofAscii "d/n/init.lua") (Bytes.ofAscii "return 2") store
        s := by
  intro script c s
  have hdir : Untemplated (Style.posix.dirname script) := by decide
  have hm : ModuleName (Bytes.ofAscii "m") := ⟨by decide, List.all_eq_true.1 (by decide)⟩
  have hn : ModuleName (Bytes.ofAscii "n") := ⟨by decide, List.all_eq_true.1 (by decide)⟩
  obtain ⟨hplain, hclosed, hinit⟩ := twoModules_reads
  obtain ⟨hstart, henters, hloadsM⟩ := require_beside_script c script _ hm hdir
  obtain ⟨-, -, hloadsN⟩ := require_beside_script c script _ hn hdir
  obtain ⟨store, henter, -, -, hs⟩ := henters 0 _ _ _ rfl hstart
  obtain rfl : enteredFirst script = store :=
    (Prod.mk.inj (Action.done.inj ((enter_enteredFirst script).symm.trans henter))).2
  let store := enteredFirst script
  have hroom : store.HasRoom 2 := by decide
  have hmLoaded : store.Has 0 store.loaded (.string (Bytes.ofAscii "m")) .nil :=
    Store.has_nil (by decide +kernel) (by decide +kernel) 0
  have hmPreloaded : store.Has 0 store.preloaded (.string (Bytes.ofAscii "m")) .nil :=
    Store.has_nil (by decide +kernel) (by decide +kernel) 0
  have hnLoaded : store.Has 0 store.loaded (.string (Bytes.ofAscii "n")) .nil :=
    Store.has_nil (by decide +kernel) (by decide +kernel) 0
  have hnPreloaded : store.Has 0 store.preloaded (.string (Bytes.ofAscii "n")) .nil :=
    Store.has_nil (by decide +kernel) (by decide +kernel) 0
  obtain ⟨-, hloadsM⟩ := hloadsM 0 _ _ _ .nil hs hmLoaded rfl hmPreloaded s
  obtain ⟨-, hloadsN⟩ := hloadsN 0 _ _ _ .nil hs hnLoaded rfl hnPreloaded s
  exact ⟨hdir, hm, hn, store, henter, hroom, (hloadsM hroom _).1 hplain,
    (hloadsN hroom _).2 hclosed hinit⟩

/-- A directory with a mark in its name, and one that has a name in its place. -/
def markedTree : FileSystem where
  root := .dir [
    (Bytes.ofAscii "q?", .dir [(Bytes.ofAscii "m.lua", .file (Bytes.ofAscii "return 1"))]),
    (Bytes.ofAscii "qm", .dir [(Bytes.ofAscii "m.lua", .file (Bytes.ofAscii "return 2"))])]
  cwd := []

theorem markedTree_reads :
    markedTree.read (Bytes.ofAscii "q?/m.lua") = .ok (Bytes.ofAscii "return 1") ∧
    markedTree.read (Bytes.ofAscii "qm/m.lua") = .ok (Bytes.ofAscii "return 2") := by
  have hmarked : markedTree.lookup (Bytes.ofAscii "q?") = .ok ([Bytes.ofAscii "q?"], _) :=
    FileSystem.lookup_name rfl (by decide) rfl nofun (by decide) (by decide)
  have hother : markedTree.lookup (Bytes.ofAscii "qm") = .ok ([Bytes.ofAscii "qm"], _) :=
    FileSystem.lookup_name rfl (by decide) rfl nofun (by decide) (by decide)
  have hfirst : markedTree.lookup
      (Style.posix.join (Bytes.ofAscii "q?") (Bytes.ofAscii "m.lua")) =
        .ok (_, .file (Bytes.ofAscii "return 1")) :=
    FileSystem.lookup_join hmarked (by decide) rfl nofun (by decide) (by decide)
  have hsecond : markedTree.lookup
      (Style.posix.join (Bytes.ofAscii "qm") (Bytes.ofAscii "m.lua")) =
        .ok (_, .file (Bytes.ofAscii "return 2")) :=
    FileSystem.lookup_join hother (by decide) rfl nofun (by decide) (by decide)
  exact ⟨FileSystem.read_of_lookup hfirst, FileSystem.read_of_lookup hsecond⟩

/-- In a directory whose name has a mark in it a module is looked for elsewhere: the file beside the
script is not loaded, although it can be read. -/
theorem require_elsewhere :
    let script := Bytes.ofAscii "q?/build.lua"
    let name := Bytes.ofAscii "m"
    let beside := Style.posix.join (Style.posix.dirname script) (name ++ Bytes.ofAscii ".lua")
    let c := telling .posix (fun _ => markedTree) LimitedOutput.sink LimitedOutput.sink 0
    let s : Session (LimitedOutput × LimitedOutput) :=
      ⟨(.empty none false, .empty none false), ⟨0, false⟩, []⟩
    ModuleName name ∧ (c.files s.world).read beside = .ok (Bytes.ofAscii "return 1") ∧
    ∃ store, Environment.enter (Evaluator.host 1) script (Environment.start .posix) =
        .done (.value (), store) ∧
      Searching store Environment.Place.packages.id (Environment.searchDir .posix
        (Style.posix.dirname script) (Bytes.ofAscii Environment.defaultPath)) ∧
      store.Has 0 store.loaded (.string name) .nil ∧
      store.Has 0 store.preloaded (.string name) .nil ∧ store.HasRoom 2 ∧
      ¬ c.Loads 4 name beside (Bytes.ofAscii "return 1") store s ∧
      c.Loads 4 name (Bytes.ofAscii "qm/m.lua") (Bytes.ofAscii "return 2") store s := by
  intro script name beside c s
  have hname : ModuleName name := ⟨by decide, List.all_eq_true.1 (by decide)⟩
  obtain ⟨hbeside, hother⟩ := markedTree_reads
  let store := enteredFirst script
  have hs : Searching store _ _ := searching_start.entered script
  have hloaded : store.Has 0 store.loaded (.string name) .nil :=
    Store.has_nil (by decide +kernel) (by decide +kernel) 0
  have hmissing : store.Has 0 store.preloaded (.string name) .nil :=
    Store.has_nil (by decide +kernel) (by decide +kernel) 0
  have hroom : store.HasRoom 2 := by decide
  -- the name stands in place of the mark in the directory as well
  have hfirst : (candidates (Environment.searchDir .posix (Style.posix.dirname script)
      (Bytes.ofAscii Environment.defaultPath)).untilNul name).head? =
        some (Bytes.ofAscii "qm/m.lua") := by decide +kernel
  obtain ⟨after, hcandidates⟩ : ∃ after, _ = [] ++ Bytes.ofAscii "qm/m.lua" :: after :=
    List.head?_eq_some_iff.1 hfirst
  have hloads : c.Loads 4 name (Bytes.ofAscii "qm/m.lua") (Bytes.ofAscii "return 2") store s :=
    loads_of_candidates hs hname hloaded rfl hmissing hroom hcandidates rfl nofun hother
  refine ⟨hname, hbeside, store, enter_enteredFirst script, hs, hloaded, hmissing, hroom,
    fun hwrong => ?_, hloads⟩
  have hsame := hloads.delivered_eq LimitedOutput.storesAll ⟨rfl, rfl⟩ hwrong
  exact absurd hsame (by decide)

end Channels

end BuildScript
