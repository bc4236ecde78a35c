import BuildScript.Proofs.Script.Calls
import BuildScript.Proofs.Script.Candidates

/-!
# Modules that are looked for

`require` asks its searchers one after the other. The one for files calls a function of the script's
own, which puts the name of the module into the templates and takes the first file that can be
opened. That file is read, and the function that is made of it is called.

* `Library.Searching`: the tables and functions that all of it rests on;
* `Library.Finds`: the file that is found;
* `Library.run_require`: a module that is not loaded is the one in that file;
* `Library.require_of_full`: without room for the calls nothing is asked for;
* `Library.searching_start`, `Library.Searching.entered`: a script finds these tables and functions,
  and its own directory in front of the templates.
-/

namespace BuildScript.Script

open BuildScript.Path Run

section
variable {σ : Type} {answers : Action.Answers σ} {w w' : σ} {s t : Store}

/-! ## Files -/

namespace Library

/-- The first of some files that can be opened is found. -/
theorem run_firstOpen {before after : List Bytes} {file : Bytes}
    (hbefore : ∀ f ∈ before, answers (.probe f) w = (false, w))
    (hfile : answers (.probe file) w = (true, w)) (s : Store) :
    (firstOpen (before ++ file :: after) s).run answers w = ((.value (some file), s), w) := by
  have hask {f : Bytes} {b : Bool} (h : answers (.probe f) w = (b, w)) :
      (ask (.probe f) s).run answers w = ((.value b, s), w) := by
    rw [ask, Action.run_ask, h]
    rfl
  induction before with
  | nil => exact (run_of_value (hask hfile) _).trans rfl
  | cons f before ih =>
    obtain ⟨hf, hrest⟩ := List.forall_mem_cons.1 hbefore
    exact (run_of_value (hask hf) _).trans (ih hrest)

/-- The file in which a module is found where these are the templates. -/
def Finds (answers : Action.Answers σ) (w : σ) (path name file : Bytes) : Prop :=
  ∃ before after, candidates path.untilNul name = before ++ file :: after ∧
    (∀ f ∈ before, answers (.probe f) w = (false, w)) ∧ answers (.probe file) w = (true, w)

theorem run_searchPath {path name file : Bytes} (hname : ModuleName name)
    (hfinds : Finds answers w path name file) (s : Store) :
    (searchPath [.string name, .string path] s).run answers w =
      ((.value [.string file], s), w) := by
  obtain ⟨before, after, hfiles, hbefore, hfile⟩ := hfinds
  have hfound : (firstOpen (candidates path.untilNul
      (moduleFile name.untilNul (Bytes.ofAscii ".") [Style.slash])) s).run answers w =
        ((.value (some file), s), w) := by
    rw [hname.untilNul, hname.moduleFile, hfiles]
    exact run_firstOpen hbefore hfile s
  have h1 : checkName [.string name, .string path] 1 s = .done (.value name.untilNul, s) := rfl
  have h2 : checkName [.string name, .string path] 2 s = .done (.value path.untilNul, s) := rfl
  unfold searchPath
  refine (run_of_value (by rw [h1]; rfl) _).trans ?_
  refine (run_of_value (by rw [h2]; rfl) _).trans ?_
  refine (run_of_value rfl _).trans ?_
  refine (run_of_value rfl _).trans ?_
  exact (run_of_value hfound _).trans rfl

/-! ## Searchers -/

/-- What the search for modules rests on, as long as a script leaves it as it found it: the table
`package` with these templates, the function that finds files, and the first two searchers. -/
structure Searching (s : Store) (packages : Nat) (path : Bytes) : Prop where
  package : s.field s.globals "package" = .table packages
  path : s.field packages "path" = .string path
  searchPath : ∃ id, s.field packages "searchpath" = .function id ∧
    s.functions[id]? = some (.host .searchPath)
  searchers : ∃ id first second, s.field s.packages "searchers" = .table id ∧
    (s.table id).at_ 1 = .function first ∧ s.functions[first]? = some (.host .findPreloaded) ∧
    (s.table id).at_ 2 = .function second ∧ s.functions[second]? = some (.host .findFile)

theorem Searching.of_looked {packages : Nat} {path : Bytes} (h : Searching s packages path)
    (hst : s.Looked t) : Searching t packages path := by
  have hfunctions : t.functions = s.functions := by rw [hst.rest]
  have hglobals : t.globals = s.globals ∧ t.packages = s.packages := by
    rw [hst.rest]
    exact ⟨rfl, rfl⟩
  constructor
  · rw [hst.field_eq, hglobals.1, h.package]
  · rw [hst.field_eq, h.path]
  · simpa only [hst.field_eq, hfunctions] using h.searchPath
  · simpa only [hst.field_eq, hfunctions, hst.at_eq, hglobals.2] using h.searchers

variable {packages : Nat} {path name file source : Bytes}

/-- Modules without a loader of their own are left to the other searchers. -/
theorem findPreloaded_of_missing (hname : ModuleName name) {fuel : Nat}
    (hmissing : s.Has fuel s.preloaded (.string name) .nil) :
    ∃ text t, s.Looked t ∧ findPreloaded (Evaluator.host (fuel + 1)) [.string name] s =
      .done (.value [.string text], t) := by
  have hargument : checkName [.string name] 1 s = .done (.value name, s) := by
    have hcheck : checkName [.string name] 1 s = .done (.value name.untilNul, s) := rfl
    rwa [hname.untilNul] at hcheck
  obtain ⟨t, hlookup, hlooked⟩ := Evaluator.lookup_of_has hmissing none none
  let text := Bytes.ofAscii "no field package.preload['" ++ name ++ Bytes.ofAscii "']"
  refine ⟨text, t, hlooked, ?_⟩
  refine (bind_of_value hargument _).trans ?_
  refine (bind_of_value rfl _).trans ?_
  exact (bind_of_value hlookup _).trans rfl

theorem callFromHost_findPreloaded {id : Nat}
    (hfunction : s.functions[id]? = some (.host .findPreloaded)) (hname : ModuleName name)
    {fuel : Nat} (hmissing : s.Has fuel s.preloaded (.string name) .nil) (hroom : s.HasRoom 1) :
    ∃ text t, s.Looked t ∧
      Evaluator.callFromHost (fuel + 3) none (.function id) [.string name] s =
        .done (.value [.string text], t) := by
  have hmissing' : (s.calling id).Has fuel (s.calling id).preloaded (.string name) .nil :=
    Store.has_calling hmissing id
  obtain ⟨text, t, hlooked, hfind⟩ := findPreloaded_of_missing hname hmissing'
  refine ⟨text, { t with frames := s.frames }, hlooked.withFrames s.frames, ?_⟩
  rw [Evaluator.callFromHost_eq hfunction, within_eq id hroom, Library.call, hfind]
  rfl

/-- What is made of what the search for a file has given. -/
def loadFound (results : List Value) : Run (List Value) := do
  let found ← wantString? (argument results 1)
  let message ← wantString? (argument results 2)
  match found with
  | none => return [.nil, .string (message.getD [])]
  | some file =>
    match ← ask (.load file) with
    | .error e =>
      fail (.external ("cannot read '" ++ Utf8.decodeLossy file ++ "': " ++ e.message))
    | .ok source =>
      match compile (← nestedCalls) file source with
      | .error f => fail f
      | .ok body => return [← newProgram body (chunkName file), .string file]

/-- The searcher for files calls the function that finds them. -/
theorem findFile_eq (hs : Searching s packages path) (name : Bytes) (fuel : Nat) :
    ∃ id t, s.Looked t ∧ t.functions[id]? = some (.host .searchPath) ∧
      findFile (Evaluator.host (fuel + 1)) [.string name] s =
        (atHost (Evaluator.callFromHost (fuel + 1) none (.function id)
          [.string name, .string path]) >>= loadFound) t := by
  obtain ⟨id, hsearch, hfunction⟩ := hs.searchPath
  let s₁ := (s.readTable s.globals (.ofAscii "package")).2
  let s₂ := (s₁.readTable packages (.ofAscii "path")).2
  have hlooked₁ : s.Looked s₁ := .readTable ..
  have hlooked₂ : s.Looked s₂ := hlooked₁.trans (.readTable ..)
  have hpackage := atHost_of_value (Evaluator.lookup_of_own hs.package rfl (.refl s)
    fuel Evaluator.maxHops none none)
  have hpath := atHost_of_value (Evaluator.lookup_of_own hs.path rfl hlooked₁
    fuel Evaluator.maxHops none none)
  have hsearchPath := atHost_of_value (Evaluator.lookup_of_own hsearch rfl hlooked₂
    fuel Evaluator.maxHops none none)
  refine ⟨id, _, hlooked₂.trans (.readTable s₂ packages (.ofAscii "searchpath")), hfunction, ?_⟩
  unfold findFile
  refine (bind_of_value rfl _).trans ?_
  refine (bind_of_value rfl _).trans ?_
  refine (bind_of_value hpackage _).trans ?_
  refine (bind_of_value rfl _).trans ?_
  refine (bind_of_value hpath _).trans ?_
  refine (bind_of_value rfl _).trans ?_
  refine (bind_of_value hsearchPath _).trans ?_
  exact (bind_of_value rfl _).trans rfl

/-- The file that is found is read, and a function is made of what is in it. -/
theorem run_findFile (hs : Searching s packages path) (hname : ModuleName name)
    (hfinds : Finds answers w path name file) (hload : answers (.load file) w = (.ok source, w'))
    (hroom : s.HasRoom 1) (fuel : Nat) :
    ∃ t, s.Looked t ∧
      (findFile (Evaluator.host (fuel + 2)) [.string name] s).run answers w =
        match compile s.nested file source with
        | .error fault => ((.raised (.fault fault), t), w')
        | .ok body =>
          let r := t.addProgram body (chunkName file)
          ((.value [r.1, .string file], r.2), w') := by
  obtain ⟨id, t, hlooked, hfunction, hfind⟩ := findFile_eq hs name (fuel + 1)
  have hcall : (Evaluator.callFromHost (fuel + 2) none (.function id)
      [.string name, .string path] t).run answers w = ((.value [.string file], t), w) := by
    refine (Evaluator.run_callFromHost hfunction ((hlooked.hasRoom 1).2 hroom) fuel _).trans ?_
    rw [Library.call, run_searchPath hname hfinds]
    rfl
  have hsource : (ask (.load file) t).run answers w = ((.value (.ok source), t), w') := by
    rw [ask, Action.run_ask, hload]
    rfl
  refine ⟨t, hlooked, ?_⟩
  rw [hfind]
  refine (run_of_value (run_atHost_of_value hcall) _).trans ?_
  refine (run_of_value rfl _).trans ?_
  refine (run_of_value rfl _).trans ?_
  refine (run_of_value hsource _).trans ?_
  refine (run_of_value rfl _).trans ?_
  change ((match compile t.nested file source with
    | .error f => fail f
    | .ok body => do return [← newProgram body (chunkName file), .string file] :
      Run (List Value)) t).run answers w' = _
  rw [hlooked.nested]
  cases compile s.nested file source <;> rfl

/-- The searcher for files, called. -/
theorem run_callFromHost_findFile {id : Nat}
    (hfunction : s.functions[id]? = some (.host .findFile)) (hs : Searching s packages path)
    (hname : ModuleName name) (hfinds : Finds answers w path name file)
    (hload : answers (.load file) w = (.ok source, w')) (hroom : s.HasRoom 2) (fuel : Nat) :
    ∃ t u, s.Looked t ∧
      (Evaluator.callFromHost (fuel + 4) none (.function id) [.string name] s).run answers w =
        match compile (s.nested + 1) file source with
        | .error fault => ((.raised (.fault fault), u), w')
        | .ok body =>
          let r := t.addProgram body (chunkName file)
          ((.value [r.1, .string file], r.2), w') := by
  have hs' : Searching (s.calling id) packages path :=
    ⟨hs.package, hs.path, hs.searchPath, hs.searchers⟩
  obtain ⟨t, hlooked, hfind⟩ := run_findFile hs' hname hfinds hload
    ((s.hasRoom_calling id 1).2 hroom) fuel
  refine ⟨{ t with frames := s.frames }, t, hlooked.withFrames s.frames, ?_⟩
  refine (Evaluator.run_callFromHost hfunction (hroom.mono (by decide)) (fuel + 2) _).trans ?_
  rw [Library.call, hfind, Store.nested_calling]
  cases compile (s.nested + 1) file source <;> rfl

theorem callFromHost_findFile_of_full {id : Nat}
    (hfunction : s.functions[id]? = some (.host .findFile)) (hs : Searching s packages path)
    (hfull : ¬ s.HasRoom 2) (name : Bytes) (fuel : Nat) :
    ∃ v u, Evaluator.callFromHost (fuel + 4) none (.function id) [.string name] s =
      .done (.raised v, u) := by
  by_cases hroom : s.HasRoom 1
  · -- there is room for the searcher, but not for the function that it calls
    have hs' : Searching (s.calling id) packages path :=
      ⟨hs.package, hs.path, hs.searchPath, hs.searchers⟩
    obtain ⟨search, t, hlooked, hsearch, hfind⟩ := findFile_eq hs' name (fuel + 1)
    have hfull' : ¬ t.HasRoom 1 := by
      rwa [hlooked.hasRoom, Store.hasRoom_calling]
    obtain ⟨v, hcall⟩ := Evaluator.callFromHost_of_full hsearch hfull' fuel
      [.string name, .string path]
    rw [Evaluator.callFromHost_eq hfunction, within_eq id hroom, Library.call, hfind,
      bind_of_raised (atHost_of_raised hcall)]
    exact ⟨_, _, rfl⟩
  · obtain ⟨v, hcall⟩ := Evaluator.callFromHost_of_full hfunction hroom (fuel + 2) [.string name]
    exact ⟨v, s, hcall⟩

/-- What is made of what a searcher gives: a loader with its second argument, or the search goes
on. -/
def heard (h : Host) (name : Bytes) (searchers rounds index : Nat) (message : Bytes)
    (results : List Value) : Run (Value × Value) :=
  let first := argument results 1
  if first.isFunction then return (first, argument results 2)
  else
    match first.toBytes? with
    | some text => findLoader h name searchers rounds (index + 1) (message ++ messageStart ++ text)
    | none => findLoader h name searchers rounds (index + 1) message

/-- The searcher for files is the first one that has something to say. -/
theorem findLoader_eq (hs : Searching s packages path) (hname : ModuleName name) {fuel : Nat}
    (hmissing : s.Has fuel s.preloaded (.string name) .nil) (hroom : s.HasRoom 1) {searchers : Nat}
    (hsearchers : s.field s.packages "searchers" = .table searchers) (rounds : Nat) :
    let h := Evaluator.host (fuel + 3)
    ∃ id t message, s.Looked t ∧ t.functions[id]? = some (.host .findFile) ∧
      findLoader h name searchers (rounds + 2) 1 [] s =
        (h.call (.function id) [.string name] >>= heard h name searchers rounds 2 message) t := by
  intro h
  obtain ⟨id, first, second, hid, hfirst, hpreloaded, hsecond, hfile⟩ := hs.searchers
  obtain rfl : id = searchers := by simpa using hid.symm.trans hsearchers
  obtain ⟨text, t, hlooked, hcall⟩ := callFromHost_findPreloaded hpreloaded hname hmissing hroom
  have hfile' : t.functions[second]? = some (.host .findFile) := by
    rw [hlooked.rest]
    exact hfile
  have hlook : look (fun s => (s.table id).at_ 1) s = .done (.value (.function first), s) := by
    rw [← hfirst]
    rfl
  have hlook' : look (fun s => (s.table id).at_ 2) t = .done (.value (.function second), t) := by
    rw [← hsecond, ← hlooked.at_eq]
    rfl
  refine ⟨second, t, [] ++ messageStart ++ text, hlooked, hfile', ?_⟩
  rw [findLoader]
  refine (bind_of_value hlook _).trans ?_
  refine (bind_of_value hcall _).trans ?_
  change findLoader h name id (rounds + 1) 2 ([] ++ messageStart ++ text) t = _
  rw [findLoader]
  exact bind_of_value hlook' _

/-- Of the searchers the second one finds the file. -/
theorem run_findLoader (hs : Searching s packages path) (hname : ModuleName name) {fuel : Nat}
    (hmissing : s.Has fuel s.preloaded (.string name) .nil)
    (hfinds : Finds answers w path name file) (hload : answers (.load file) w = (.ok source, w'))
    (hroom : s.HasRoom 2) {searchers : Nat}
    (hsearchers : s.field s.packages "searchers" = .table searchers) (rounds : Nat) :
    ∃ t u, s.Looked t ∧
      (findLoader (Evaluator.host (fuel + 4)) name searchers (rounds + 2) 1 [] s).run answers w =
        match compile (s.nested + 1) file source with
        | .error fault => ((.raised (.fault fault), u), w')
        | .ok body =>
          let r := t.addProgram body (chunkName file)
          ((.value (r.1, .string file), r.2), w') := by
  obtain ⟨id, t, message, hlooked, hfunction, hloader⟩ := findLoader_eq hs hname
    (hmissing.mono (Nat.le_add_right fuel 1)) (hroom.mono (by decide)) hsearchers rounds
  obtain ⟨t', u, hlooked', hcall⟩ := run_callFromHost_findFile hfunction (hs.of_looked hlooked)
    hname hfinds hload ((hlooked.hasRoom 2).2 hroom) fuel
  refine ⟨t', u, hlooked.trans hlooked', ?_⟩
  rw [hloader]
  rw [hlooked.nested] at hcall
  cases hcompile : compile (s.nested + 1) file source with
  | error fault =>
    rw [hcompile] at hcall
    exact run_of_raised hcall _
  | ok body =>
    rw [hcompile] at hcall
    exact (run_of_value hcall _).trans rfl

theorem findLoader_of_full (hs : Searching s packages path) (hname : ModuleName name) {fuel : Nat}
    (hmissing : s.Has fuel s.preloaded (.string name) .nil) (hfull : ¬ s.HasRoom 2)
    {searchers : Nat} (hsearchers : s.field s.packages "searchers" = .table searchers)
    (rounds : Nat) :
    ∃ v u, findLoader (Evaluator.host (fuel + 4)) name searchers (rounds + 2) 1 [] s =
      .done (.raised v, u) := by
  by_cases hroom : s.HasRoom 1
  · obtain ⟨id, t, message, hlooked, hfunction, hloader⟩ := findLoader_eq hs hname
      (hmissing.mono (Nat.le_add_right fuel 1)) hroom hsearchers rounds
    obtain ⟨v, u, hcall⟩ := callFromHost_findFile_of_full hfunction (hs.of_looked hlooked)
      ((hlooked.hasRoom 2).not.2 hfull) name fuel
    rw [hloader]
    exact ⟨v, u, bind_of_raised hcall _⟩
  · obtain ⟨id, first, second, hid, hfirst, hpreloaded, -⟩ := hs.searchers
    obtain rfl : id = searchers := by simpa using hid.symm.trans hsearchers
    obtain ⟨v, hcall⟩ := Evaluator.callFromHost_of_full hpreloaded hroom (fuel + 2) [.string name]
    have hlook : look (fun s => (s.table id).at_ 1) s = .done (.value (.function first), s) := by
      rw [← hfirst]
      rfl
    refine ⟨v, s, ?_⟩
    rw [findLoader]
    refine (bind_of_value hlook _).trans ?_
    exact bind_of_raised hcall _

/-! ## Modules -/

/-- What is left to do for a module when a function was made of it: it is called, and what it gives
is kept. -/
def keep (h : Host) (loaded : Nat) (name : Bytes) (loader data : Value) : Run (List Value) := do
  let value := argument (← h.call loader [.string name, data]) 1
  if !value.isNil then change fun s => s.rawSet loaded (.string name) value
  match ← h.lookup (.table loaded) (.string name) with
  | .nil => do
    change fun s => s.rawSet loaded (.string name) (.bool true)
    return [.bool true, data]
  | value => return [value, data]

/-- A module that is not loaded is looked for. -/
theorem require_eq (hs : Searching s packages path) (hname : ModuleName name) {fuel : Nat}
    {v : Value} (hloaded : s.Has fuel s.loaded (.string name) v) (hv : v.isTrue = false) :
    let h := Evaluator.host (fuel + 1)
    ∃ searchers rounds t, s.Looked t ∧ t.field t.packages "searchers" = .table searchers ∧
      require h [.string name] s =
        (findLoader h name searchers (rounds + 2) 1 [] >>= fun p =>
          keep h s.loaded name p.1 p.2) t := by
  intro h
  obtain ⟨id, first, second, hid, hfirst, -⟩ := hs.searchers
  obtain ⟨s₁, hcached, hlooked₁⟩ := Evaluator.lookup_of_has hloaded none none
  let t := (s₁.readTable s₁.packages (.ofAscii "searchers")).2
  have hlooked : s.Looked t := hlooked₁.trans (.readTable ..)
  have hid₁ : s.field s₁.packages "searchers" = .table id := by
    rw [hlooked₁.rest]
    exact hid
  have htable := Evaluator.lookup_of_own hid₁ rfl hlooked₁ fuel Evaluator.maxHops none none
  obtain ⟨rounds, hrounds⟩ : ∃ n, (t.table id).entries.length = n + 1 := by
    have hsome : ((t.table id).at_ 1).isNil = false := by
      rw [hlooked.at_eq, hfirst]
      rfl
    obtain ⟨k, -⟩ := Table.exists_of_at_ hsome
    exact Nat.exists_eq_add_one.2 (Nat.zero_lt_of_lt k.isLt)
  refine ⟨id, rounds, t, hlooked, (hlooked.field_eq t.packages "searchers").trans hid₁, ?_⟩
  unfold require
  refine (bind_of_value rfl _).trans ?_
  simp only [hname.untilNul]
  refine (bind_of_value rfl _).trans ?_
  refine (bind_of_value hcached _).trans ?_
  rw [if_neg (by rw [hv]; exact Bool.false_ne_true)]
  refine (bind_of_value rfl _).trans ?_
  refine (bind_of_value htable _).trans ?_
  refine (bind_of_value rfl _).trans ?_
  change (findLoader h name id ((t.table id).entries.length + 1) 1 [] >>= fun p =>
    keep h s.loaded name p.1 p.2) t = _
  rw [hrounds]

section
variable (hs : Searching s packages path) (hname : ModuleName name) {fuel : Nat} {v : Value}
  (hloaded : s.Has fuel s.loaded (.string name) v) (hv : v.isTrue = false)
  (hmissing : s.Has fuel s.preloaded (.string name) .nil)
include hs hname hloaded hv hmissing

/-- Of the file that is found a function is made, and what it gives is kept. -/
theorem run_require (hfinds : Finds answers w path name file)
    (hload : answers (.load file) w = (.ok source, w')) (hroom : s.HasRoom 2) :
    let h := Evaluator.host (fuel + 4)
    ∃ t u, s.Looked t ∧
      (require h [.string name] s).run answers w =
        match compile (s.nested + 1) file source with
        | .error fault => ((.raised (.fault fault), u), w')
        | .ok body =>
          ((newProgram body (chunkName file) >>= fun loader =>
            keep h s.loaded name loader (.string file)) t).run answers w' := by
  intro h
  obtain ⟨searchers, rounds, t, hlooked, hsearchers, hrequire⟩ := require_eq hs hname
    (hloaded.mono (Nat.le_add_right fuel 3)) hv
  obtain ⟨t', u, hlooked', hfind⟩ := run_findLoader (hs.of_looked hlooked) hname
    (hlooked.has_preloaded hmissing) hfinds hload ((hlooked.hasRoom 2).2 hroom) hsearchers rounds
  refine ⟨t', u, hlooked.trans hlooked', ?_⟩
  rw [hrequire]
  rw [hlooked.nested] at hfind
  cases hcompile : compile (s.nested + 1) file source with
  | error fault =>
    rw [hcompile] at hfind
    exact run_of_raised hfind _
  | ok body =>
    rw [hcompile] at hfind
    have hprogram : (newProgram body (chunkName file) t').run answers w' =
        ((.value (t'.addProgram body (chunkName file)).1,
          (t'.addProgram body (chunkName file)).2), w') := rfl
    refine (run_of_value hfind _).trans ?_
    exact (run_of_value hprogram fun loader => keep h s.loaded name loader (.string file)).symm

/-- When too many calls are under way nothing is asked for. -/
theorem require_of_full (hfull : ¬ s.HasRoom 2) :
    ∃ v u, require (Evaluator.host (fuel + 4)) [.string name] s = .done (.raised v, u) := by
  obtain ⟨searchers, rounds, t, hlooked, hsearchers, hrequire⟩ := require_eq hs hname
    (hloaded.mono (Nat.le_add_right fuel 3)) hv
  obtain ⟨v, u, hfind⟩ := findLoader_of_full (hs.of_looked hlooked) hname
    (hlooked.has_preloaded hmissing) ((hlooked.hasRoom 2).not.2 hfull) hsearchers rounds
  rw [hrequire]
  exact ⟨v, u, bind_of_raised hfind _⟩

end

end Library

end

/-! ## Scripts -/

theorem Value.eq_function_of_rawEq {v : Value} {id : Nat} (h : v.rawEq (.function id) = true) :
    v = .function id := by
  cases v <;> simp_all [Value.rawEq]

/-- A text as a key is no index. -/
theorem Table.at_set (t : Table) (bs : Bytes) {v : Value} (hv : v.isNil = false) (i : Nat) :
    (t.set (.string bs) v).at_ i = t.at_ i := by
  have hput (entries : List (Value × Value)) :
      (put (.string bs) v entries).find? (·.1.rawEq (.whole i)) =
        entries.find? (·.1.rawEq (.whole i)) := by
    induction entries with
    | nil => rfl
    | cons e rest ih =>
      unfold put
      by_cases hsame : e.1.rawEq (.string bs)
      · have hkey : e.1.rawEq (.whole i) = false := by
          rw [Value.eq_string_of_rawEq hsame]
          rfl
        rw [if_pos hsame, List.find?_cons, List.find?_cons]
        simp only [hkey]
      · rw [if_neg hsame, List.find?_cons, List.find?_cons, ih]
  simp [set, at_, get, normalKey, hv, hput]

theorem Store.at_setField (s : Store) (id : Nat) (name : String) {v : Value}
    (hv : v.isNil = false) (other i : Nat) :
    ((s.setField id name v).table other).at_ i = (s.table other).at_ i := by
  rw [setField, rawSet, table_setTable]
  split
  · rename_i h
    rw [h.1]
    exact Table.at_set _ _ hv i
  · rfl

theorem Store.frames_setField (s : Store) (id : Nat) (name : String) (v : Value) :
    (s.setField id name v).frames = s.frames := rfl

theorem Store.frames_readTable (s : Store) (id : Nat) (key : Value) :
    (s.readTable id key).2.frames = s.frames := rfl

/-- A script is entered between calls. -/
theorem Environment.frames_entered (s : Store) (packages : Nat) (path script : Bytes) :
    (entered s packages path script).frames = s.frames := by
  rw [entered, Store.frames_setField, Store.frames_readTable, Store.frames_readTable,
    Store.frames_setField]

namespace Library

variable {s : Store} {packages : Nat} {path : Bytes}

theorem Searching.setField {path' : Bytes} (h : Searching s packages path) (id : Nat)
    {name : String} {v : Value} (hv : v.isNil = false)
    (hpath : (s.setField id name v).field packages "path" = .string path')
    (hname : ∀ other ∈ ["package", "searchpath", "searchers"],
      Bytes.ofAscii name ≠ Bytes.ofAscii other) :
    Searching (s.setField id name v) packages path' := by
  have hfield (i : Nat) (other : String) (hother : other ∈ ["package", "searchpath", "searchers"]) :
      (s.setField id name v).field i other = s.field i other :=
    Store.field_setField_of_ne i hv fun _ => hname other hother
  obtain ⟨search, hsearch, hfunction⟩ := h.searchPath
  obtain ⟨searchers, first, second, hsearchers, hfirst, hpreloaded, hsecond, hfile⟩ := h.searchers
  refine ⟨(hfield _ _ (by decide)).trans h.package, hpath,
    ⟨search, (hfield _ _ (by decide)).trans hsearch, hfunction⟩,
    ⟨searchers, first, second, (hfield _ _ (by decide)).trans hsearchers, ?_, hpreloaded, ?_,
      hfile⟩⟩
  · rw [Store.at_setField _ _ _ hv, hfirst]
  · rw [Store.at_setField _ _ _ hv, hsecond]

/-- A script that is entered finds its directory in front of the templates. -/
theorem Searching.entered (h : Searching s packages path) (script : Bytes) :
    Searching (Environment.entered s packages path script) packages
      (Environment.searchDir s.style (s.style.dirname script) path) := by
  let dir := s.style.dirname script
  let s₁ := s.setField s.globals scriptDirName (.string dir)
  let s₂ := (s₁.readTable s.globals (.ofAscii "package")).2
  let s₃ := (s₂.readTable packages (.ofAscii "path")).2
  have hpath₁ : s₁.field packages "path" = .string path :=
    (Store.field_setField_of_ne _ rfl fun _ => by decide).trans h.path
  have h₁ : Searching s₁ packages path := h.setField _ rfl hpath₁ (by decide)
  have h₃ : Searching s₃ packages path :=
    h₁.of_looked (.trans (.readTable ..) (.readTable ..))
  have hinside : packages < s₃.tables.size :=
    Store.lt_size_of_field (by rw [h₃.path]; exact Value.noConfusion)
  exact h₃.setField packages rfl (Store.field_setField hinside rfl) (by decide)

theorem searching_start :
    Searching (Environment.start .posix) Environment.Place.packages.id
      (Bytes.ofAscii Environment.defaultPath) where
  package := (Environment.start_fields .posix).1
  path := (Environment.start_fields .posix).2
  searchPath := ⟨20, Value.eq_function_of_rawEq (by decide +kernel), by rfl⟩
  searchers := ⟨Environment.Place.searchers.id, 22, 23, Value.eq_table_of_rawEq (by decide +kernel),
    Value.eq_function_of_rawEq (by decide +kernel), by rfl,
    Value.eq_function_of_rawEq (by decide +kernel), by rfl⟩

end Library

end BuildScript.Script
