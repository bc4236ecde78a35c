import BuildScript.Proofs.Evaluation.Effects

/-!
# Numbers that are not open any more

The environment may name a number that nothing is open under. Such a number stays without a file
unless it is the lowest free one: the output is opened before the parent is looked for, and takes it.

* `Created.isAttached_iff`: when a sender is attached all the same;
* `execute_stale`: what an evaluation does if the number is not the lowest;
* `records_behind_rules`: and what it does if it is.
-/

namespace BuildScript

open Files Files.Machine Deps Script

section
variable {m m₁ : Machine} {n k : Nat} {loc : Location} {deps : Option Bytes} {path : Bytes}

/-- The number of the output is the only one that was free and can be written to. -/
theorem Created.openForWriting_iff (h : Created m path loc n m₁) (hclosed : m.isOpen k = false) :
    Sender.OpenForWriting m₁ k ↔ k = n := by
  constructor
  · rintro ⟨d, hd, -⟩
    by_contra hne
    rw [h.numbers k hne] at hd
    rw [isOpen, hd] at hclosed
    cases hclosed
  · rintro rfl
    obtain ⟨d, -, hd, -, hwrite, -⟩ := h.atEnd
    exact ⟨d, hd, hwrite⟩

/-- A number that is not open stays without a sender unless the output takes it. -/
theorem Created.isAttached_iff (h : Created m path loc n m₁) (hnamed : namedNumber? deps = some k)
    (hclosed : m.isOpen k = false) :
    (Sender.ofVariable deps m₁).1.isAttached = true ↔ k = m.lowestFree := by
  rw [← h.lowest, ← h.openForWriting_iff hclosed, Sender.isAttached_ofVariable_iff]
  constructor
  · rintro ⟨j, hj, hopen⟩
    obtain rfl : k = j := Option.some.inj (hnamed.symm.trans hj)
    exact hopen
  · exact fun hopen => ⟨k, hnamed, hopen⟩

end

/-- A number that is not open when an evaluation begins reaches no file, unless it is the lowest of
them. If it is another, the sender is inert, the output holds the rules and nothing else, and no
other file changes. It does not matter what steps are made in place of a script. -/
theorem execute_stale (o : Options) (files : FileSystem) (table : List (Nat × Descriptor))
    {text : String} {k : Nat} {path source : Bytes} {loc : Location} {files' : FileSystem}
    (hpath : o.outputFile = some path) (hnames : Names text k)
    (hclosed : (Machine.start files table).isOpen k = false)
    (hread : files.read o.script = .ok source) (hcreate : files.create path = .ok (loc, files')) :
    let m := Machine.start files table
    (∀ script : Bytes → Run Unit,
      let r := executeRun script o (some (Utf8.encode text)) m
      ∃ p, prepare o (some (Utf8.encode text)) m = .ok p ∧ p.source = source ∧
        (p.channels.deps.isAttached = true ↔ k = m.lowestFree) ∧
        (k ≠ m.lowestFree →
          (∃ own, Channels.Leaves (p.channels.rulesMade (script source) p.machine) r.1 own ∧
            r.2.2.files.read path = .ok own ∧ r.2.2.files.fileAt? loc = some own) ∧
          files.Keeps r.2.2.files ∧
          ∀ other, other ≠ loc → r.2.2.files.fileAt? other = files.fileAt? other)) ∧
    ∀ steps, execute steps o (some (Utf8.encode text)) m =
      executeRun (o.program steps) o (some (Utf8.encode text)) m := by
  intro m
  refine ⟨fun script => ?_, fun steps => rfl⟩
  have hnamed : namedNumber? (some (Utf8.encode text)) = some k :=
    namedNumber?_eq_some_iff.2 ⟨text, rfl, hnames⟩
  obtain ⟨n, m₁, hmade, hcreated⟩ := exists_created (m := m) hcreate
  have hattached := hcreated.isAttached_iff hnamed hclosed
  by_cases hlowest : k = m.lowestFree
  · -- the number is that of the output, and this says nothing of what is written there
    have hprepare := prepare_ok (m := m) hpath hread hmade (some (Utf8.encode text))
    exact ⟨_, hprepare, rfl, hattached, fun hne => absurd hlowest hne⟩
  · have hfound : Reported m₁ n loc [] (Sender.ofVariable (some (Utf8.encode text)) m₁) := by
      apply hcreated.reported_of_closed
      intro j hj
      obtain rfl : k = j := Option.some.inj (hnamed.symm.trans hj)
      rw [hcreated.openForWriting_iff hclosed, hcreated.lowest]
      exact hlowest
    obtain ⟨p, hprepare, hsource, hdeps, hown, hkeeps, hothers⟩ :=
      hcreated.executeRun_created hpath hread hmade rfl hfound script
    rw [← hdeps] at hattached
    exact ⟨p, hprepare, hsource, hattached, fun _ =>
      ⟨hown, hkeeps, fun other hne => hothers other hne nofun⟩⟩

def jsonName : Bytes := Bytes.ofAscii "o.json"

/-- A script that does nothing, beside a terminal. -/
def idleTree : FileSystem := ⟨.dir [(scriptName, .file []), ([0x74], .file [])], []⟩

/-- The numbers that every program has. -/
def standardNumbers : List (Nat × Descriptor) :=
  [0, 1, 2].map fun n => (n, ⟨[[0x74]], .readWrite, false, 0⟩)

def idleMachine : Machine := .start idleTree standardNumbers

def toJson : Options := ⟨scriptName, some jsonName, []⟩

theorem idleTree_read : idleTree.read scriptName = .ok [] := by
  have hlookup : idleTree.lookup scriptName = .ok ([scriptName], .file []) :=
    FileSystem.lookup_name rfl (by decide) rfl nofun (by decide) (by decide)
  rw [FileSystem.read, hlookup]
  rfl

theorem idleTree_create : idleTree.create jsonName =
    .ok ([jsonName], idleTree.setContentAt [jsonName] []) := by
  have hrefused : FileSystem.refused? jsonName = none := by decide
  have hsteps : steps jsonName = [jsonName] := by decide
  have hproper : ProperName jsonName := by decide
  have hchild : child? [(scriptName, .file []), ([0x74], .file [])] jsonName = none := rfl
  have hfollow : idleTree.follow maxLinks [] [jsonName] = .ok [jsonName] :=
    FileSystem.follow_missing rfl hproper (by decide) hchild
  have hlocate : idleTree.locate jsonName = .ok [jsonName] := by
    rw [FileSystem.locate, hrefused, hsteps]
    exact hfollow
  rw [FileSystem.create, hrefused, FileSystem.locateNew, if_neg (by decide), hlocate]
  rfl

/-- What the script is run on if the number reaches nothing. -/
def notReached : Prepared where
  source := []
  channels := ⟨.posix, Machine.files, fileOutput 3, .inert, machineDepth⟩
  warnings := [.cannotReport]
  machine :=
    { idleMachine with
      files := idleTree.setContentAt [jsonName] []
      table := standardNumbers ++ [(3, ⟨[jsonName], .write, false, 0⟩)] }

theorem idleMachine_create : idleMachine.create jsonName = .ok (3, notReached.machine) := by
  have hfiles : idleMachine.files.create jsonName = _ := idleTree_create
  rw [create, hfiles]
  rfl

theorem prepare_notReached :
    prepare toJson (some (Utf8.encode "9")) idleMachine = .ok notReached := by
  have hpath : toJson.outputFile = some jsonName := by decide
  have hnumber : descriptorNumber? "9" = some 9 := by decide
  have hfound : Sender.ofVariable (some (Utf8.encode "9")) notReached.machine =
      (.inert, [.cannotReport], notReached.machine) := by
    rw [Sender.ofVariable, Option.bind_some, Utf8.decode?_encode]
    simp only [Sender.ofText, hnumber]
    rfl
  have hprepare := prepare_ok (m := idleMachine) hpath idleTree_read idleMachine_create
    (some (Utf8.encode "9"))
  rw [hfound] at hprepare
  exact hprepare

theorem notReached_ending :
    (notReached.channels.evaluateRun (toJson.program 30 []) toJson notReached.machine).1 =
      .complete 0 := by decide +kernel

/-- A number that is not open and not the lowest reaches nothing. -/
theorem execute_stale_highNumber : toJson.outputFile = some jsonName ∧ Names "9" 9 ∧
    idleMachine.isOpen 9 = false ∧
    (execute 30 toJson (some (Utf8.encode "9")) idleMachine).2.2.files.read jsonName =
      .ok (RuleStream.document []) := by
  have hpath : toJson.outputFile = some jsonName := by decide
  have hnames : Names "9" 9 := descriptorNumber?_eq_some_iff.1 (by decide)
  have hclosed : idleMachine.isOpen 9 = false := rfl
  obtain ⟨hruns, hscripts⟩ := execute_stale toJson idleTree standardNumbers hpath hnames hclosed
    idleTree_read idleTree_create
  obtain ⟨p, hprepare, -, -, hapart⟩ := hruns (toJson.program 30)
  have hne : 9 ≠ idleMachine.lowestFree := by decide
  obtain ⟨⟨own, hleaves, hown, -⟩, -⟩ := hapart hne
  obtain rfl : notReached = p := Except.ok.inj (prepare_notReached.symm.trans hprepare)
  have hsource : notReached.source = [] := rfl
  rw [executeRun_of_prepare hprepare] at hleaves
  dsimp only at hleaves
  rw [hsource, notReached_ending] at hleaves
  obtain ⟨hcount, hdocument⟩ := hleaves.eq_document
  rw [List.eq_nil_of_length_eq_zero hcount.symm] at hdocument
  have hran : execute 30 toJson (some (Utf8.encode "9")) idleMachine = _ := hscripts 30
  rw [hran, hown, hdocument]
  exact ⟨hpath, hnames, hclosed, rfl⟩

/-- What the script is run on. The sender has taken over the number of the output. -/
def takenOver : Prepared where
  source := []
  channels := ⟨.posix, Machine.files, fileOutput 3, .toSink (recordOutput 3), machineDepth⟩
  warnings := []
  machine :=
    { idleMachine with
      files := idleTree.setContentAt [jsonName] []
      table := standardNumbers ++ [(3, ⟨[jsonName], .write, true, 0⟩)] }

theorem prepare_takenOver :
    prepare toJson (some (Utf8.encode "3")) idleMachine = .ok takenOver := by
  have hpath : toJson.outputFile = some jsonName := by decide
  have hnumber : descriptorNumber? "3" = some 3 := by decide
  have hfound : Sender.ofVariable (some (Utf8.encode "3")) notReached.machine =
      (.toSink (recordOutput 3), [], takenOver.machine) := by
    rw [Sender.ofVariable, Option.bind_some, Utf8.decode?_encode]
    simp only [Sender.ofText, hnumber]
    rfl
  have hprepare := prepare_ok (m := idleMachine) hpath idleTree_read idleMachine_create
    (some (Utf8.encode "3"))
  rw [hfound] at hprepare
  exact hprepare

theorem takenOver_run :
    let r := takenOver.channels.evaluateRun (toJson.program 30 []) toJson takenOver.machine
    r.1 = .complete 0 ∧ r.2.2.files.fileAt? [jsonName] = some (RuleStream.document [] ++
      [Record.input scriptName, .product jsonName].flatMap Record.encode) := by decide +kernel

/-- If the number is the lowest, the sender takes the output for a parent, and the records come
behind the rules. -/
theorem records_behind_rules :
    Names "3" 3 ∧ idleMachine.isOpen 3 = false ∧
    ∃ p, prepare toJson (some (Utf8.encode "3")) idleMachine = .ok p ∧
      p.channels.deps.isAttached = true ∧
      (execute 30 toJson (some (Utf8.encode "3")) idleMachine).1 = .complete 0 ∧
      (execute 30 toJson (some (Utf8.encode "3")) idleMachine).2.2.files.fileAt? [jsonName] =
        some (RuleStream.document [] ++
          [Record.input scriptName, .product jsonName].flatMap Record.encode) := by
  have hnames : Names "3" 3 := descriptorNumber?_eq_some_iff.1 (by decide)
  rw [execute, executeRun_of_prepare prepare_takenOver]
  dsimp only
  have hsource : takenOver.source = [] := rfl
  rw [hsource]
  obtain ⟨hending, houtput⟩ := takenOver_run
  exact ⟨hnames, rfl, takenOver, prepare_takenOver, rfl, hending, houtput⟩

end BuildScript
