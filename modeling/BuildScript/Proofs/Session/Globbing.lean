import BuildScript.Proofs.Glob.Ordered
import BuildScript.Proofs.Script.Arguments
import BuildScript.Proofs.Session.Isolation
import BuildScript.Proofs.Session.Telling

/-!
# Globs of scripts

A script and a list of patterns come to the same paths. A pattern is looked at when its turn comes,
so those in front of a value that is none have had their effect when the call is refused.

* `Glob.walks`, `Glob.exists_walks`: the walks of all patterns of a list;
* `Channels.gather_run`, `Channels.foldlM_gather_run`: one value, and all values of a call;
* `Channels.glob_run`: a whole call;
* `Channels.glob_agrees`: against the paths that the patterns leave by themselves.
-/

namespace BuildScript

open Files Deps Script Glob BuildScript.Path

/-! ## Walks -/

namespace Glob

variable {list : Listing} {style : Style} {budget : Nat} {patterns : List Bytes}

/-- What is observed while patterns are resolved, one after the other. -/
def walks (list : Listing) (style : Style) (budget : Nat) (patterns : List Bytes) :
    Option (List (List Event)) :=
  patterns.mapM fun pattern => walk list style budget (Signed.read pattern).pattern

theorem walks_cons_eq_some_iff {pattern : Bytes} {parts : List (List Event)} :
    walks list style budget (pattern :: patterns) = some parts ↔ ∃ events rest,
      walk list style budget (Signed.read pattern).pattern = some events ∧
      walks list style budget patterns = some rest ∧ events :: rest = parts := by
  simp [walks, List.mapM_cons, Option.bind_eq_some_iff]

theorem exists_walks
    (hends : ∀ pattern ∈ patterns, Ends list style (Signed.read pattern).pattern) :
    ∃ enough parts, ∀ budget, enough ≤ budget → walks list style budget patterns = some parts := by
  induction patterns with
  | nil => exact ⟨0, [], fun _ _ => rfl⟩
  | cons pattern patterns ih =>
    obtain ⟨before, rest, hrest⟩ := ih fun p hp => hends p (List.mem_cons_of_mem _ hp)
    obtain ⟨enough, hsome⟩ := hends pattern List.mem_cons_self
    obtain ⟨events, hevents⟩ := Option.isSome_iff_exists.1 hsome
    refine ⟨max enough before, events :: rest, ?_⟩
    intro budget hbudget
    have hmore := walk_mono (show enough ≤ budget by omega) hevents
    exact walks_cons_eq_some_iff.2 ⟨events, rest, hmore, hrest budget (by omega), rfl⟩

end Glob

/-! ## Sessions -/

namespace Channels

open Library

variable {ρ δ : Type} {style : Style} {files : ρ → FileSystem} {rules : Sink ρ} {depth : Nat}
variable {sender : Sender δ}

section
variable (rules sender)

/-- A pattern whose walk ends is applied, and its directories are told. -/
theorem gather_run {s : Session (ρ × δ)} {p : Nat × Value} {dir pattern : Bytes}
    {events : List Event} (hp : p.2.toBytes? = some pattern)
    (hwalk : walk (files s.world.1).list style depth
      (Signed.read (rebase style dir pattern)).pattern = some events)
    (set : MatchSet) (store : Store) :
    let c := beside style files rules sender depth
    (gather style dir set p store).run c.answers s =
      ((.value (set.applyEvents (Signed.read (rebase style dir pattern)).exclude events), store),
        (listedDirs events).foldl (fun s dir => c.reportInput dir s) s) := by
  intro c
  have hexpand : c.answers (.expand (Signed.read (rebase style dir pattern)).pattern) s =
      (some (foundPaths events),
        (listedDirs events).foldl (fun s dir => c.reportInput dir s) s) := by
    simp only [answers, expand, c, beside_files, beside_style, beside_depth, hwalk]
  have hgather : gather style dir set p store =
      applyPattern set (rebase style dir pattern) store := by
    simp only [gather, stringAmong, hp]
    rfl
  have hasked : (Run.ask (.expand (Signed.read (rebase style dir pattern)).pattern) store).run
      c.answers s = ((.value (some (foundPaths events)), store),
        (listedDirs events).foldl (fun s dir => c.reportInput dir s) s) := by
    rw [Run.ask, Action.run_ask, hexpand]
    rfl
  rw [hgather, MatchSet.applyEvents_eq_applyPaths]
  exact Run.run_of_value hasked _

/-- All values: those in front of one that is refused are applied, and their directories are
told. -/
theorem foldlM_gather_run (values : List (Nat × Value)) {dir : Bytes} {fs : FileSystem}
    {parts : List (List Event)} (store : Store) (set : MatchSet) {s : Session (ρ × δ)}
    (hfiles : files s.world.1 = fs)
    (hwalks : walks fs.list style depth ((leading values).1.map (rebase style dir)) =
      some parts) :
    let c := beside style files rules sender depth
    let r := (values.foldlM (gather style dir) set store).run c.answers s
    r.2 = (parts.flatMap listedDirs).foldl (fun s dir => c.reportInput dir s) s ∧
      ((leading values).2 = none → ∃ after,
        ((leading values).1.map (rebase style dir)).foldlM (fun (set : MatchSet) pattern =>
          (set.apply fs.list style depth pattern).map Prod.fst) set = some after ∧
        r.1 = (.value after, store)) ∧
      ∀ i v, (leading values).2 = some (i, v) →
        r.1 = (.raised (.fault (wrongArgument i "glob" "string" v.exactTypeName)), store) := by
  intro c
  induction values generalizing parts set s with
  | nil =>
    obtain rfl : [] = parts := Option.some.inj hwalks
    exact ⟨rfl, fun _ => ⟨set, rfl, rfl⟩, fun i v h => by cases h⟩
  | cons p values ih =>
    have hcons : ((p :: values).foldlM (gather style dir) set : Run MatchSet) =
        gather style dir set p >>= fun set => values.foldlM (gather style dir) set :=
      List.foldlM_cons
    rw [hcons]
    cases hp : p.2.toBytes? with
    | none =>
      have hstart : leading (p :: values) = ([], some p) := by rw [leading, hp]
      have hrefused : (gather style dir set p store).run c.answers s =
          ((.raised (.fault (wrongArgument p.1 "glob" "string" p.2.exactTypeName)), store), s) := by
        rw [gather_of_none hp, Action.run_done]
      rw [hstart] at hwalks ⊢
      obtain rfl : [] = parts := Option.some.inj hwalks
      rw [Run.run_of_raised hrefused]
      refine ⟨rfl, by simp, ?_⟩
      rintro i v hv
      obtain rfl := Option.some.inj hv
      rfl
    | some pattern =>
      have hstart : leading (p :: values) =
          (pattern :: (leading values).1, (leading values).2) := by
        rw [leading, hp]
      rw [hstart] at hwalks ⊢
      obtain ⟨events, rest, hevents, hrest, rfl⟩ := walks_cons_eq_some_iff.1 hwalks
      have hfirst := gather_run rules sender hp (hfiles ▸ hevents) set store
      have herase : ((listedDirs events).foldl (fun s dir => c.reportInput dir s) s).erase =
          s.erase := foldl_reportInput_erase ..
      -- telling leaves the files as they are, so the other walks are those of the same tree
      have hstill := (congrArg (files ·.world) herase).trans hfiles
      obtain ⟨htold, hdone, hraised⟩ := ih _ hstill hrest
      rw [Run.run_of_value hfirst]
      refine ⟨?_, ?_, hraised⟩
      · rw [List.flatMap_cons, List.foldl_append]
        exact htold
      · intro hnone
        obtain ⟨after, hfold, hafter⟩ := hdone hnone
        refine ⟨after, ?_, hafter⟩
        rw [List.map_cons, List.foldlM_cons, MatchSet.apply, hevents]
        exact hfold

/-- A whole call: what it gives or raises, and what is told of it. -/
theorem glob_run (steps : Nat) (arguments : List Value) {store : Store} {dir : Bytes}
    {fs : FileSystem} {parts : List (List Event)} {s : Session (ρ × δ)}
    (hdir : (store.field store.globals scriptDirName).toBytes? = some dir)
    (hfiles : files s.world.1 = fs)
    (hwalks : walks fs.list store.style depth ((leading (store.amongst arguments)).1.map
      (rebase store.style dir)) = some parts) :
    let c := beside store.style files rules sender depth
    let r := (Library.glob (Evaluator.host (steps + 1)) arguments store).run c.answers s
    r.2 = (parts.flatMap listedDirs).foldl (fun s dir => c.reportInput dir s) s ∧
      ((leading (store.amongst arguments)).2 = none → ∃ paths id after,
        Glob.glob fs.list store.style depth ((leading (store.amongst arguments)).1.map
          (rebase store.style dir)) = some paths ∧
        r.1 = (.value [.table id], after) ∧
        after.table id = Table.ofList (paths.map .string)) ∧
      ∀ i v, (leading (store.amongst arguments)).2 = some (i, v) → ∃ after,
        r.1 = (.raised (.fault (wrongArgument i "glob" "string" v.exactTypeName)), after) := by
  intro c r
  obtain ⟨t, hglob⟩ := glob_of_field hdir steps arguments
  obtain ⟨htold, hdone, hraised⟩ :=
    foldlM_gather_run rules sender (store.amongst arguments) t MatchSet.empty hfiles hwalks
  cases hwrong : (leading (store.amongst arguments)).2 with
  | none =>
    obtain ⟨set, hset, hvalue⟩ := hdone hwrong
    have hrun := Run.run_of_value (Prod.ext hvalue htold) fun set => do
      return [← Run.newTable (Table.ofList (set.paths.map .string))]
    have hr : r = _ := (congrArg (·.run c.answers s) hglob).trans hrun
    rw [hr]
    refine ⟨rfl, fun _ => ?_, by simp⟩
    refine ⟨set.paths, _, _, ?_, rfl, Store.table_addTable ..⟩
    rw [Glob.glob, hset]
    rfl
  | some p =>
    obtain ⟨i, v⟩ := p
    have hrun := Run.run_of_raised (Prod.ext (hraised i v hwrong) htold)
      fun set => do return [← Run.newTable (Table.ofList (set.paths.map .string))]
    have hr : r = _ := (congrArg (·.run c.answers s) hglob).trans hrun
    rw [hr]
    refine ⟨rfl, by simp, ?_⟩
    rintro _ _ hsame
    obtain ⟨rfl, rfl⟩ := Prod.mk.inj (Option.some.inj hsame)
    exact ⟨t, rfl⟩

/-- A glob of a script leaves what the patterns that it is given leave, whether they are arguments
or stand in tables, and a parent that takes everything is told of the directories that their walks
list. Where one of the values is no pattern, the call raises its position, and the parent is told
of the patterns in front of it. Nothing is done to the rules. -/
theorem glob_agrees (style : Style) (files : ρ → FileSystem) (fs : FileSystem) (dir : Bytes)
    (given : List Bytes)
    (hends : ∀ pattern ∈ given,
      Ends fs.list style (Signed.read (rebase style dir pattern)).pattern) :
    let patterns := given.map (rebase style dir)
    ∃ enough parts paths,
      (∀ budget, enough ≤ budget → walks fs.list style budget patterns = some parts ∧
        Glob.glob fs.list style budget patterns = some paths) ∧
      ∀ depth, enough ≤ depth → ∀ (steps : Nat) (arguments : List Value) (store : Store),
        store.style = style → (store.field store.globals scriptDirName).toBytes? = some dir →
        (leading (store.amongst arguments)).1 = given →
        ∀ s : Session (ρ × δ), files s.world.1 = fs →
        let c := beside style files rules sender depth
        let r := (Library.glob (Evaluator.host (steps + 1)) arguments store).run c.answers s
        ((leading (store.amongst arguments)).2 = none → ∃ id after,
          r.1 = (.value [.table id], after) ∧
          after.table id = Table.ofList (paths.map .string) ∧
          (paths.length < 2 ^ 63 → (after.table id).sequence = paths.map .string)) ∧
        (∀ i v, (leading (store.amongst arguments)).2 = some (i, v) → ∃ after,
          r.1 = (.raised (.fault (wrongArgument i "glob" "string" v.exactTypeName)), after)) ∧
        r.2.erase = s.erase ∧
        ∀ (sink : Sink δ) (sound : δ → Prop) (text : δ → Bytes), sender = .toSink sink →
          sink.StoresAll sound text → sound s.world.2 →
          Told sound text (parts.flatMap listedDirs) s r.2 := by
  intro patterns
  have hpatterns : ∀ pattern ∈ patterns, Ends fs.list style (Signed.read pattern).pattern := by
    intro pattern hpattern
    obtain ⟨p, hp, rfl⟩ := List.mem_map.1 hpattern
    exact hends p hp
  obtain ⟨first, parts, hparts⟩ := exists_walks hpatterns
  obtain ⟨second, set, hset, -⟩ := exists_foldlM hpatterns
  have hglob : ∀ budget, second ≤ budget →
      Glob.glob fs.list style budget patterns = some set.paths := by
    intro budget hbudget
    rw [Glob.glob, hset budget hbudget]
    rfl
  refine ⟨max first second, parts, set.paths, ?_, ?_⟩
  · exact fun budget hbudget => ⟨hparts budget (by omega), hglob budget (by omega)⟩
  · rintro depth hdepth steps arguments store rfl hdir rfl s hfiles c r
    obtain ⟨htold, hdone, hraised⟩ :=
      glob_run rules sender steps arguments hdir hfiles (hparts depth (by omega))
    refine ⟨?_, hraised, ?_, ?_⟩
    · intro hnone
      obtain ⟨paths, id, after, hpaths, hvalue, htable⟩ := hdone hnone
      obtain rfl := Option.some.inj ((hglob depth (by omega)).symm.trans hpaths)
      refine ⟨id, after, hvalue, htable, ?_⟩
      intro hlength
      rw [htable, Table.sequence_ofList ?_ (by simpa using hlength)]
      intro v hv
      obtain ⟨path, -, rfl⟩ := List.mem_map.1 hv
      rfl
    · exact (congrArg Session.erase htold).trans (foldl_reportInput_erase ..)
    · rintro sink sound text rfl h hs
      have hsession : r.2 = _ := htold
      rw [hsession]
      exact foldl_reportInput_told store.style files rules depth h _ hs

end

/-- A directory with one file in it. -/
def oneFile : FileSystem :=
  ⟨.dir [(Bytes.ofAscii "d", .dir [(Bytes.ofAscii "a.c", .file [])])], []⟩

/-- The globals name that directory, and behind them is a table of a pattern and a number. -/
def oneFileStore : Store where
  style := .posix
  tables := #[⟨[(.ofAscii "SCRIPT_DIR", .ofAscii "d")], .empty, none⟩,
    Table.ofList [.ofAscii "*.c", .number (.whole 7)]]
  functions := #[]
  cells := #[]
  frames := []
  globals := 0
  packages := 0
  loaded := 0
  preloaded := 0
  strings := 0

/-- A call with a pattern, the table, and more arguments. -/
def oneFileRun (depth : Nat) (more : List Value) :
    (Outcome (List Value) × Store) × Session (LimitedOutput × LimitedOutput) :=
  (Library.glob (Evaluator.host 1) (.ofAscii "!x" :: .table 1 :: more) oneFileStore).run
    (beside .posix (fun _ => oneFile) LimitedOutput.sink (.toSink LimitedOutput.sink) depth).answers
    ⟨(.empty none false, .empty none false), ⟨0, false⟩, []⟩

def oneFileGiven : List Bytes := ["!x", "*.c", "7"].map Bytes.ofAscii

/-- What the three patterns find. A name without a wildcard is taken as it is, so only the
directory of the second pattern is listed. -/
def oneFileEvents : List (List Event) := [
  [.found (Bytes.ofAscii "d/x") false],
  [.listed (Bytes.ofAscii "d"), .found (Bytes.ofAscii "d/a.c") false],
  [.found (Bytes.ofAscii "d/7") false]]

/-- The paths in byte order, without the one that is taken out. -/
def oneFilePaths : List Bytes := ["d/7", "d/a.c"].map Bytes.ofAscii

theorem glob_agrees_oneFile : ∃ enough, ∀ depth, enough ≤ depth →
    walks oneFile.list .posix depth (oneFileGiven.map (rebase .posix (Bytes.ofAscii "d"))) =
      some oneFileEvents ∧
    Glob.glob oneFile.list .posix depth (oneFileGiven.map (rebase .posix (Bytes.ofAscii "d"))) =
      some oneFilePaths ∧
    (∃ id after, (oneFileRun depth []).1 = (.value [.table id], after) ∧
      (after.table id).sequence = oneFilePaths.map .string) ∧
    (∃ after, (oneFileRun depth [.bool true]).1 =
      (.raised (.fault (wrongArgument 3 "glob" "string" "boolean")), after)) ∧
    (oneFileRun depth [.bool true]).2.world.2.stored =
      Record.encode (.input (Bytes.ofAscii "d")) := by
  have hends : ∀ pattern ∈ oneFileGiven, (walk oneFile.list .posix 1
      (Signed.read (rebase .posix (Bytes.ofAscii "d") pattern)).pattern).isSome := by
    intro pattern hpattern
    obtain rfl | rfl | rfl : pattern = _ ∨ pattern = _ ∨ pattern = _ := by
      simpa [oneFileGiven] using hpattern
    · cbv
    · cbv
    · cbv
  obtain ⟨enough, parts, paths, hwalks, hcall⟩ := glob_agrees LimitedOutput.sink
    (.toSink LimitedOutput.sink) .posix (fun _ => oneFile) oneFile (Bytes.ofAscii "d") oneFileGiven
    fun pattern hpattern => ⟨1, hends pattern hpattern⟩
  -- none of the patterns goes deeper than it says, so any budget will do
  have hevents : ∀ depth, walks oneFile.list .posix depth
      (oneFileGiven.map (rebase .posix (Bytes.ofAscii "d"))) = some oneFileEvents := by
    intro depth
    cbv
  have hfound : ∀ depth, Glob.glob oneFile.list .posix depth
      (oneFileGiven.map (rebase .posix (Bytes.ofAscii "d"))) = some oneFilePaths := by
    intro depth
    cbv
  obtain ⟨hparts, hpaths⟩ := hwalks enough (Nat.le_refl _)
  obtain rfl := Option.some.inj (hparts.symm.trans (hevents enough))
  obtain rfl := Option.some.inj (hpaths.symm.trans (hfound enough))
  refine ⟨enough, fun depth hdepth => ?_⟩
  obtain ⟨hvalue, -⟩ := hcall depth hdepth 0 [.ofAscii "!x", .table 1] oneFileStore rfl rfl rfl
    ⟨(.empty none false, .empty none false), ⟨0, false⟩, []⟩ rfl
  obtain ⟨-, hraised, -, htold⟩ := hcall depth hdepth 0
    [.ofAscii "!x", .table 1, .bool true] oneFileStore rfl rfl rfl
    ⟨(.empty none false, .empty none false), ⟨0, false⟩, []⟩ rfl
  obtain ⟨id, after, hafter, -, hsequence⟩ := hvalue rfl
  refine ⟨hevents depth, hfound depth, ⟨id, after, hafter, hsequence (by decide)⟩, ?_, ?_⟩
  · exact hraised 3 (.bool true) rfl
  · exact (htold LimitedOutput.sink LimitedOutput.Unlimited LimitedOutput.stored rfl
      LimitedOutput.storesAll ⟨rfl, rfl⟩).text

end Channels

end BuildScript
