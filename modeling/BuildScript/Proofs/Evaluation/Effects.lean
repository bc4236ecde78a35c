import BuildScript.Proofs.Deps.Attaching
import BuildScript.Proofs.Session.Steady

/-!
# What an evaluation does to files

An evaluation reads its script before it does anything, and creates its output before it looks for a
parent. What goes wrong up to there leaves the machine as it is. From there on the output and the
file of the parent grow, and no other file changes.

* `Reports`: a sender, and the file that it writes to;
* `Channels.evaluateRun_writes`: the files behind an evaluation;
* `prepare_of_unreadable`, `prepare_of_uncreatable`, `prepare_ok`: what comes before it;
* `execute_touches`: all of it.
-/

namespace BuildScript

open Files Files.Machine Deps Script

/-- A sender with the files that it writes to, and their numbers. -/
inductive Reports : Sender Machine → List (Nat × Location) → Prop where
  | inert : Reports .inert []
  | attached (k : Nat) (loc : Location) : Reports (.toSink (recordOutput k)) [(k, loc)]

section
variable {c : Channels Machine} {rest : List (Nat × Location)} {base : FileSystem}
variable {m : Machine} {n : Nat} {loc : Location}

theorem Writes.ne_of_cons {k : Nat} {other : Location}
    (hm : Writes base ((n, loc) :: (k, other) :: rest) m) : loc ≠ other :=
  ((List.pairwise_cons.1 hm.apart).1 (k, other) List.mem_cons_self).2

theorem Reports.send {s : Sender Machine} (h : Reports s rest) (r : Record)
    (hm : Writes base ((n, loc) :: rest) m) :
    ∃ m', s.send r m = (.ok (), m') ∧ Writes base ((n, loc) :: rest) m' ∧
      ruleText loc m' = ruleText loc m := by
  cases h with
  | inert => exact ⟨m, rfl, hm, rfl⟩
  | attached k other =>
    have hlasting := lasting_ruleText (Writes.ne_of_cons hm) (ruleText loc m)
    have hmem : (k, other) ∈ [(n, loc), (k, other)] := by simp
    have stores : (recordOutput k).StoresAll (fun w => Writes base [(n, loc), (k, other)] w ∧
        ruleText loc w = ruleText loc m) (recordText other) := recordOutput_storesAll hlasting hmem
    obtain ⟨m', hsend, ⟨hwrites, htext⟩, -⟩ := Sender.send_toSink stores r ⟨hm, rfl⟩
    exact ⟨m', hsend, hwrites, htext⟩

theorem Reports.flush {s : Sender Machine} (h : Reports s rest)
    (hm : Writes base ((n, loc) :: rest) m) :
    ∃ m', s.flush m = (.ok (), m') ∧ Writes base ((n, loc) :: rest) m' ∧
      ruleText loc m' = ruleText loc m := by
  cases h with
  | inert => exact ⟨m, rfl, hm, rfl⟩
  | attached k other =>
    have hlasting := lasting_ruleText (Writes.ne_of_cons hm) (ruleText loc m)
    have hmem : (k, other) ∈ [(n, loc), (k, other)] := by simp
    obtain ⟨m', hflush, hwrites, htext, -⟩ := flush_recordOutput hlasting hmem hm rfl
    exact ⟨m', hflush, hwrites, htext⟩

/-- Giving the sender up changes no file but its own. -/
theorem Reports.drop {s : Sender Machine} (h : Reports s rest) (hm : Writes base rest m) :
    base.Keeps (s.drop m).2.files ∧ ∀ other, other ∉ rest.map Prod.snd →
      (s.drop m).2.files.fileAt? other = base.fileAt? other := by
  cases h with
  | inert => exact ⟨hm.keeps, hm.others⟩
  | attached k other =>
    have hlasting : Lasting other fun _ => True := fun _ _ _ _ _ _ => trivial
    obtain ⟨m', hdrop, hwrites, -, -⟩ :=
      Sender.drop_recordOutput hlasting (List.mem_singleton.2 rfl) hm trivial
    rw [hdrop]
    exact ⟨hwrites.keeps, hwrites.others⟩

/-- Whoever is told, the rules are stored. -/
theorem Reports.steady (hdeps : Reports c.deps rest) (hrules : c.rules = fileOutput n) :
    c.Steady (Writes base ((n, loc) :: rest)) (ruleText loc) where
  rules := by
    rw [hrules]
    exact fileOutput_storesAll List.mem_cons_self
  send r _ hm := hdeps.send r hm
  flush _ hm := hdeps.flush hm

/-- An evaluation changes no files but its output and that of the parent, and leaves the rules in its
output. -/
theorem Channels.evaluateRun_writes (hdeps : Reports c.deps rest)
    (hrules : c.rules = fileOutput n) (hm : Writes m.files ((n, loc) :: rest) m)
    (hempty : ruleText loc m = []) (script : Run Unit) (o : Options) :
    let r := c.evaluateRun script o m
    ∃ own, Leaves (c.rulesMade script m) r.1 own ∧
      r.2.2.files.fileAt? loc = some own ∧ m.files.Keeps r.2.2.files ∧
      ∀ other, other ≠ loc → other ∉ rest.map Prod.snd →
        r.2.2.files.fileAt? other = m.files.fileAt? other := by
  intro r
  obtain ⟨m₁, own, hwrites₁, htext₁, hleaves, hend⟩ :=
    evaluateRun_steady (hdeps.steady hrules) script o hm
  rw [hempty, List.nil_append] at htext₁
  obtain ⟨m₂, hclose, hwrites₂, htext₂⟩ := close_fileOutput List.mem_cons_self hwrites₁
  obtain ⟨hkeeps, hothers⟩ := hdeps.drop hwrites₂.close
  have hfiles : r.2.2.files = (c.deps.drop (m₂.close n)).2.files := by
    rw [← hclose, ← hrules, ← hend]
  have hapart : loc ∉ rest.map Prod.snd := by
    intro hmem
    obtain ⟨e, he, heq⟩ := List.mem_map.1 hmem
    exact ((List.pairwise_cons.1 hm.apart).1 e he).2 heq.symm
  refine ⟨own, hleaves, ?_, ?_, ?_⟩
  · rw [hfiles, hothers loc hapart, (hwrites₂.atEnd _ List.mem_cons_self).fileAt?_eq, htext₂, htext₁]
  · rw [hfiles]
    exact hwrites₂.keeps.trans hkeeps
  · intro other hne hnot
    have hnew : other ∉ ((n, loc) :: rest).map Prod.snd := by
      rw [List.map_cons, List.mem_cons]
      rintro (heq | hmem)
      · exact hne heq
      · exact hnot hmem
    rw [hfiles, hothers other hnot, hwrites₂.others other hnew]

end

/-! ## Before the evaluation -/

section
variable {o : Options} {deps : Option Bytes} {m m' : Machine} {path : Bytes}

theorem prepare_of_unreadable {e : OsError} (h : m.files.read o.script = .error e) :
    prepare o deps m = .error (.readScript o.script e) := by
  rw [prepare, h]
  rfl

theorem prepare_of_uncreatable (hpath : o.outputFile = some path) {source : Bytes} {e : OsError}
    (hread : m.files.read o.script = .ok source) (hcreate : m.files.create path = .error e) :
    prepare o deps m = .error (.openOutput path e) := by
  have hopen : m.create path = .error e := by
    rw [create, hcreate]
    rfl
  simp only [prepare, hread, hpath, hopen]
  rfl

theorem executeRun_of_prepare {p : Prepared} (h : prepare o deps m = .ok p)
    (script : Bytes → Run Unit) :
    executeRun script o deps m = ((p.channels.evaluateRun (script p.source) o p.machine).1,
      p.warnings ++ (p.channels.evaluateRun (script p.source) o p.machine).2.1,
      (p.channels.evaluateRun (script p.source) o p.machine).2.2) := by
  rw [executeRun, h]

/-- A script that could be read is evaluated on the machine as it is with the new output and the
descriptor of the parent. -/
theorem prepare_ok (hpath : o.outputFile = some path) {source : Bytes} {n : Nat}
    (hread : m.files.read o.script = .ok source) (hcreate : m.create path = .ok (n, m'))
    (deps : Option Bytes) :
    prepare o deps m = .ok ⟨source,
      ⟨.posix, Machine.files, fileOutput n, (Sender.ofVariable deps m').1, machineDepth⟩,
      (Sender.ofVariable deps m').2.1, (Sender.ofVariable deps m').2.2⟩ := by
  simp only [prepare, hread, hpath, hcreate]
  rfl

end

/-! ## All of it -/

/-- The parent that the environment names, if it does, is behind a number that is open on a file, and
not on the one that a path leads to. -/
def ParentApart (deps : Option Bytes) (m : Machine) (path : Bytes) : Prop :=
  ∀ k, namedNumber? deps = some k → ∃ d, m.descriptor? k = some d ∧
    (m.files.fileAt? d.location).isSome ∧
    ∀ loc files, m.files.create path = .ok (loc, files) → d.location ≠ loc

/-- A machine whose output was just created: an empty file in the place of whatever its path led to,
open under a number that was free. -/
structure Created (m : Machine) (path : Bytes) (loc : Location) (n : Nat) (m₁ : Machine) : Prop where
  free : m.isOpen n = false
  lowest : n = m.lowestFree
  created : ∃ files, m.files.create path = .ok (loc, files)
  files : m₁.files = m.files.setContentAt loc []
  takes : m.files.TakesFile loc
  numbers : ∀ k, k ≠ n → m₁.descriptor? k = m.descriptor? k
  atEnd : m₁.AtEnd n loc
  rules : m₁.ruleBuffer = m.ruleBuffer

/-- What was found out about a parent behind the creation of the output: there is a sender, and the
files that it writes to are not the output. -/
structure Reported (m₁ : Machine) (n : Nat) (loc : Location) (rest : List (Nat × Location))
    (found : Sender Machine × List Warning × Machine) : Prop where
  reports : Reports found.1 rest
  files : found.2.2.files = m₁.files
  rules : found.2.2.ruleBuffer = m₁.ruleBuffer
  writes : Writes m₁.files ((n, loc) :: rest) found.2.2

section
variable {m m₁ : Machine} {n : Nat} {loc : Location} {deps : Option Bytes} {path : Bytes}
variable {rest : List (Nat × Location)}

theorem exists_created {files : FileSystem} (hfiles : m.files.create path = .ok (loc, files)) :
    ∃ n m₁, m.create path = .ok (n, m₁) ∧ Created m path loc n m₁ := by
  have hcreate : ∃ made, m.create path = .ok made := by
    rw [create, hfiles]
    exact ⟨_, rfl⟩
  obtain ⟨⟨n, m₁⟩, hmade⟩ := hcreate
  obtain ⟨hn, loc', files', hfiles', hm₁, hdescriptor, hrules, -⟩ := create_ok hmade
  rw [hfiles] at hfiles'
  cases hfiles'
  obtain ⟨hset, htakes, -, -⟩ := FileSystem.create_ok hfiles
  have hempty : m₁.files.fileAt? loc = some [] := by
    rw [hm₁, hset, FileSystem.fileAt?_setContentAt htakes, if_pos rfl]
  refine ⟨n, m₁, hmade, ⟨?_, hn, ⟨files, hfiles⟩, hm₁.trans hset, htakes, ?_, ?_, hrules⟩⟩
  · rw [hn]
    exact m.isOpen_lowestFree
  · intro k hk
    rw [hdescriptor, if_neg hk]
  · refine ⟨⟨loc, .write, false, 0⟩, [], ?_, rfl, rfl, hempty, fun _ => rfl⟩
    rw [hdescriptor, if_pos rfl]

namespace Created

theorem ruleText_eq (h : Created m path loc n m₁) (hempty : m.ruleBuffer = []) :
    ruleText loc m₁ = [] := by
  have hfile : m₁.files.fileAt? loc = some [] := by
    rw [h.files, FileSystem.fileAt?_setContentAt h.takes, if_pos rfl]
  rw [ruleText, FileSystem.contentAt_of_fileAt? hfile, h.rules, hempty]
  rfl

theorem fileAt?_eq (h : Created m path loc n m₁) {other : Location} (hne : other ≠ loc) :
    m₁.files.fileAt? other = m.files.fileAt? other := by
  rw [h.files, FileSystem.fileAt?_setContentAt h.takes, if_neg hne]

theorem keeps (h : Created m path loc n m₁) : m.files.Keeps m₁.files := by
  rw [h.files]
  exact FileSystem.keeps_setContentAt h.takes []

theorem writes (h : Created m path loc n m₁) : Writes m₁.files [(n, loc)] m₁ := by
  refine .start (List.pairwise_singleton _ _) ?_
  intro e he
  rw [List.mem_singleton.1 he]
  exact h.atEnd

/-- What the path led to before leads there still. -/
theorem read_eq (h : Created m path loc n m₁) {fs : FileSystem} (hkeeps : m.files.Keeps fs)
    {content : Bytes} (hfile : fs.fileAt? loc = some content) : fs.read path = .ok content := by
  obtain ⟨files, hfiles⟩ := h.created
  obtain ⟨-, -, hrefused, hfollow⟩ := FileSystem.create_ok hfiles
  exact FileSystem.read_of_keeps hkeeps hrefused hfollow hfile

/-- Where nothing is taken over, nothing is told. -/
theorem reported_of_closed (h : Created m path loc n m₁)
    (hclosed : ∀ k, namedNumber? deps = some k → ¬ Sender.OpenForWriting m₁ k) :
    Reported m₁ n loc [] (Sender.ofVariable deps m₁) := by
  rcases Sender.ofVariable_cases deps m₁ with ⟨k, d, hnamed, hd, hwrite, -⟩ | ⟨-, warnings, heq⟩
  · exact absurd ⟨d, hd, hwrite⟩ (hclosed k hnamed)
  · rw [heq]
    exact ⟨.inert, rfl, rfl, h.writes⟩

/-- A parent that is apart from the output is told in a file of its own, if at all. -/
theorem reported_of_apart (h : Created m path loc n m₁) (hparent : ParentApart deps m path) :
    ∃ rest, Reported m₁ n loc rest (Sender.ofVariable deps m₁) ∧
      ∀ other ∈ rest.map Prod.snd, ∃ k d, namedNumber? deps = some k ∧
        m.descriptor? k = some d ∧ other = d.location := by
  rcases Sender.ofVariable_cases deps m₁ with ⟨k, d, hnamed, hd, hwrite, heq⟩ | ⟨hclosed, -⟩
  · obtain ⟨d', hd', hfile, hapart⟩ := hparent k hnamed
    have hne : k ≠ n := by
      rintro rfl
      have hfree := h.free
      rw [isOpen, hd'] at hfree
      cases hfree
    obtain rfl : d' = d := by
      rw [h.numbers k hne, hd'] at hd
      exact Option.some.inj hd
    obtain ⟨files, hfiles⟩ := h.created
    have hplace : d'.location ≠ loc := hapart loc files hfiles
    obtain ⟨content, hcontent⟩ := Option.isSome_iff_exists.1 (h.keeps.fileAt? hfile)
    rw [heq]
    refine ⟨[(k, d'.location)], ⟨.attached k d'.location, rfl, rfl, ?_⟩, ?_⟩
    · apply Writes.start (m := m₁.replace k { d' with append := true })
      · refine List.pairwise_cons.2 ⟨?_, List.pairwise_singleton _ _⟩
        intro e he
        rw [List.mem_singleton.1 he]
        exact ⟨hne.symm, hplace.symm⟩
      · intro e he
        rcases List.mem_cons.1 he with rfl | he
        · apply h.atEnd.congr
          · rw [descriptor?_replace, if_neg hne.symm]
          · rfl
        · rw [List.mem_singleton.1 he]
          exact Sender.atEnd_append hd hwrite hcontent
    · intro other hother
      rw [List.map_singleton, List.mem_singleton] at hother
      exact ⟨k, d', hnamed, hd', hother⟩
  · exact ⟨[], h.reported_of_closed hclosed, by simp⟩

/-- Behind the creation of the output, the script that was read is the one that is run, and the
files of the parent and the output are all that changes. -/
theorem executeRun_created (h : Created m path loc n m₁) {o : Options} {source : Bytes}
    (hpath : o.outputFile = some path) (hread : m.files.read o.script = .ok source)
    (hcreate : m.create path = .ok (n, m₁)) (hempty : m.ruleBuffer = [])
    (hfound : Reported m₁ n loc rest (Sender.ofVariable deps m₁)) (script : Bytes → Run Unit) :
    let r := executeRun script o deps m
    ∃ p, prepare o deps m = .ok p ∧ p.source = source ∧
      p.channels.deps = (Sender.ofVariable deps m₁).1 ∧
      (∃ own, Channels.Leaves (p.channels.rulesMade (script source) p.machine) r.1 own ∧
        r.2.2.files.read path = .ok own ∧ r.2.2.files.fileAt? loc = some own) ∧
      m.files.Keeps r.2.2.files ∧
      ∀ other, other ≠ loc → other ∉ rest.map Prod.snd →
        r.2.2.files.fileAt? other = m.files.fileAt? other := by
  intro r
  have hprepare := prepare_ok hpath hread hcreate deps
  have hnothing : ruleText loc (Sender.ofVariable deps m₁).2.2 = [] := by
    rw [ruleText, hfound.files, hfound.rules]
    exact h.ruleText_eq hempty
  have hwrites := hfound.writes
  rw [← hfound.files] at hwrites
  obtain ⟨own, hleaves, hown, hkeeps, hothers⟩ := Channels.evaluateRun_writes
    (c := ⟨.posix, Machine.files, fileOutput n, (Sender.ofVariable deps m₁).1, machineDepth⟩)
    hfound.reports rfl hwrites hnothing (script source) o
  have hr : r = executeRun script o deps m := rfl
  rw [executeRun_of_prepare hprepare] at hr
  rw [hfound.files] at hkeeps hothers
  have hall := h.keeps.trans hkeeps
  rw [hr]
  refine ⟨_, hprepare, rfl, rfl, ⟨own, hleaves, h.read_eq hall hown, hown⟩, hall, ?_⟩
  intro other hne hnot
  exact (hothers other hne hnot).trans (h.fileAt?_eq hne)

end Created

end

/-- What an evaluation does to files. If the script cannot be read, or the output not created,
nothing happens at all. Else the script is the one that was read, the output holds the rules that it
makes, as far as it comes, and no other file changes than that of the parent. It does not matter what
steps are made in place of a script. -/
theorem execute_touches (o : Options) (deps : Option Bytes) (files : FileSystem)
    (table : List (Nat × Descriptor)) {path : Bytes} (hpath : o.outputFile = some path)
    (hparent : ParentApart deps (Machine.start files table) path) :
    let m := Machine.start files table
    (∀ script : Bytes → Run Unit,
      let r := executeRun script o deps m
      (∀ e, files.read o.script = .error e → r = (.failed (.readScript o.script e), [], m)) ∧
      ∀ source, files.read o.script = .ok source →
        (∀ e, files.create path = .error e → r = (.failed (.openOutput path e), [], m)) ∧
        ∀ loc files', files.create path = .ok (loc, files') →
          ∃ p, prepare o deps m = .ok p ∧ p.source = source ∧
            (∃ own, Channels.Leaves (p.channels.rulesMade (script source) p.machine) r.1 own ∧
              r.2.2.files.read path = .ok own ∧ r.2.2.files.fileAt? loc = some own) ∧
            files.Keeps r.2.2.files ∧
            ∀ other, other ≠ loc →
              (∀ k d, namedNumber? deps = some k → m.descriptor? k = some d →
                other ≠ d.location) →
              r.2.2.files.fileAt? other = files.fileAt? other) ∧
    ∀ steps, execute steps o deps m = executeRun (o.program steps) o deps m := by
  intro m
  refine ⟨fun script => ⟨?_, ?_⟩, fun steps => rfl⟩
  · intro e hread
    have hprepare : prepare o deps m = .error (.readScript o.script e) := prepare_of_unreadable hread
    simp only [executeRun, hprepare]
  intro source hread
  refine ⟨?_, ?_⟩
  · intro e hcreate
    have hprepare : prepare o deps m = .error (.openOutput path e) :=
      prepare_of_uncreatable hpath hread hcreate
    simp only [executeRun, hprepare]
  intro loc files' hfiles
  obtain ⟨n, m₁, hcreate, hcreated⟩ := exists_created (m := m) hfiles
  obtain ⟨rest, hfound, hrest⟩ := hcreated.reported_of_apart hparent
  obtain ⟨p, hprepare, hsource, -, hown, hkeeps, hothers⟩ :=
    hcreated.executeRun_created hpath hread hcreate rfl hfound script
  refine ⟨p, hprepare, hsource, hown, hkeeps, ?_⟩
  intro other hne hparents
  apply hothers other hne
  intro hmem
  obtain ⟨k, d, hnamed, hd, heq⟩ := hrest other hmem
  exact hparents k d hnamed hd heq

def scriptName : Bytes := Bytes.ofAscii "b.lua"

def ownSource : Bytes := Bytes.ofAscii "rule\x7btask=\x7b'cc'\x7d\x7d"

/-- A script beside the file of a parent. -/
def scriptAndLog : FileSystem :=
  ⟨.dir [(scriptName, .file ownSource), ([0x64], .file [0x6F])], []⟩

def logNumber : List (Nat × Descriptor) := [(3, ⟨[[0x64]], .write, false, 0⟩)]

/-- The script is to be replaced by its own rules. -/
def overItself : Options := ⟨scriptName, some scriptName, []⟩

theorem scriptAndLog_lookup :
    scriptAndLog.lookup scriptName = .ok ([scriptName], .file ownSource) :=
  FileSystem.lookup_name rfl (by decide) rfl nofun (by decide) (by decide)

theorem scriptAndLog_read : scriptAndLog.read scriptName = .ok ownSource := by
  rw [FileSystem.read, scriptAndLog_lookup]
  rfl

theorem scriptAndLog_create : scriptAndLog.create scriptName =
    .ok ([scriptName], scriptAndLog.setContentAt [scriptName] []) := by
  have hrefused : FileSystem.refused? scriptName = none := by decide
  rw [FileSystem.create, hrefused, FileSystem.locateNew, if_neg (by decide),
    FileSystem.locate_of_lookup scriptAndLog_lookup]
  rfl

def loggedMachine : Machine := .start scriptAndLog logNumber

/-- What is run then, with the output under the lowest number. -/
def overwritten : Prepared where
  source := ownSource
  channels := ⟨.posix, Machine.files, fileOutput 0, .toSink (recordOutput 3), machineDepth⟩
  warnings := []
  machine :=
    { loggedMachine with
      files := scriptAndLog.setContentAt [scriptName] []
      table := [(3, ⟨[[0x64]], .write, true, 0⟩), (0, ⟨[scriptName], .write, false, 0⟩)] }

theorem prepare_overwritten :
    prepare overItself (some (Utf8.encode "3")) loggedMachine = .ok overwritten := by
  have hpath : overItself.outputFile = some scriptName := by decide
  have hnumber : descriptorNumber? "3" = some 3 := by decide
  let m₁ : Machine := { loggedMachine with
    files := scriptAndLog.setContentAt [scriptName] []
    table := logNumber ++ [(0, ⟨[scriptName], .write, false, 0⟩)] }
  have hcreate : loggedMachine.create scriptName = .ok (0, m₁) := by
    have hfiles : loggedMachine.files.create scriptName = _ := scriptAndLog_create
    rw [create, hfiles]
    rfl
  have hfound : Sender.ofVariable (some (Utf8.encode "3")) m₁ =
      (.toSink (recordOutput 3), [], overwritten.machine) := by
    have hread : Sender.ofVariable (some (Utf8.encode "3")) m₁ = Sender.ofText (some "3") m₁ := by
      rw [Sender.ofVariable, Option.bind_some, Utf8.decode?_encode]
    rw [hread]
    simp only [Sender.ofText, hnumber]
    rfl
  have hprepare := prepare_ok (m := loggedMachine) hpath scriptAndLog_read hcreate
    (some (Utf8.encode "3"))
  rw [hfound] at hprepare
  exact hprepare

theorem overwritten_run :
    let script := overItself.program 30 ownSource
    ((overwritten.channels.evaluateRun script overItself overwritten.machine).1,
      overwritten.channels.rulesMade script overwritten.machine) =
    (.complete 1, [⟨[], ["cc"], []⟩]) := by decide +kernel

/-- The script is read before it is overwritten by its own rule. -/
theorem execute_touches_ownScript :
    overItself.outputFile = some scriptName ∧
    ParentApart (some (Utf8.encode "3")) (.start scriptAndLog logNumber) scriptName ∧
    (execute 30 overItself (some (Utf8.encode "3"))
      (.start scriptAndLog logNumber)).2.2.files.read scriptName =
        .ok (RuleStream.document [⟨[], ["cc"], []⟩]) := by
  have hpath : overItself.outputFile = some scriptName := by decide
  have hnamed : namedNumber? (some (Utf8.encode "3")) = some 3 := by decide
  have hparent :
      ParentApart (some (Utf8.encode "3")) (.start scriptAndLog logNumber) scriptName := by
    intro k hk
    obtain rfl : 3 = k := Option.some.inj (hnamed.symm.trans hk)
    refine ⟨⟨[[0x64]], .write, false, 0⟩, rfl, rfl, ?_⟩
    intro loc files hmade
    have hplace : [scriptName] = loc :=
      congrArg Prod.fst (Except.ok.inj (scriptAndLog_create.symm.trans hmade))
    rw [← hplace]
    decide
  obtain ⟨hruns, hscripts⟩ := execute_touches overItself (some (Utf8.encode "3")) scriptAndLog
    logNumber hpath hparent
  obtain ⟨-, hevaluated⟩ := hruns (overItself.program 30)
  obtain ⟨-, hcreated⟩ := hevaluated ownSource scriptAndLog_read
  obtain ⟨p, hprepare, -, ⟨own, hleaves, hown, -⟩, -⟩ := hcreated _ _ scriptAndLog_create
  obtain rfl : overwritten = p := Except.ok.inj (prepare_overwritten.symm.trans hprepare)
  obtain ⟨hending, hmade⟩ := Prod.mk.inj overwritten_run
  rw [executeRun_of_prepare hprepare, hmade] at hleaves
  dsimp only at hleaves
  have hsource : overwritten.source = ownSource := rfl
  rw [hsource, hending] at hleaves
  obtain ⟨-, rfl⟩ := hleaves.eq_document
  exact ⟨hpath, hparent, by rw [hscripts, hown]⟩

end BuildScript
