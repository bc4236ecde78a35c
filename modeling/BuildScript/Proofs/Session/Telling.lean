import BuildScript.Proofs.Deps.Codec
import BuildScript.Proofs.Glob.Search
import BuildScript.Proofs.Rules.Stream
import BuildScript.Proofs.Script.Entering
import BuildScript.Proofs.Session.Halves
import Mathlib.Data.List.Permutation

/-!
# What the parent is told

A parent that takes everything is told of the script, then of every directory listed and of every
module read, as they are asked for, and last of the output, if the script came to its end and the
rules are complete. Nobody tells it anything else.

* `Script.Action.trace`: the requests of an action, with what was remembered at each;
* `Channels.reads`: the files and directories that are read for a request;
* `Channels.answers_told`, `Channels.run_told`: one request, and all requests of a script;
* `Channels.conclude_told`: what comes after a script;
* `Channels.evaluate_told`: all that is written in an evaluation.
-/

namespace BuildScript

open Files Deps Script BuildScript.Path

variable {ρ δ : Type}

/-! ## Outputs and senders -/

/-- An output that stores everything, and keeps it when it is given up. -/
structure Files.Sink.KeepsAll (sink : Sink δ) (sound : δ → Prop) (text : δ → Bytes) : Prop
    extends sink.StoresAll sound text where
  close : ∀ d, sound d → text (sink.close d) = text d

theorem Files.LimitedOutput.keepsAll :
    LimitedOutput.sink.KeepsAll LimitedOutput.Unlimited LimitedOutput.stored :=
  ⟨LimitedOutput.storesAll, fun _ _ => rfl⟩

namespace Deps

theorem decodeAll_flatMap_encode (records : List Record) :
    decodeAll (records.flatMap Record.encode) = (records.map Record.delivered, []) := by
  induction records with
  | nil =>
    rw [List.flatMap_nil, decodeAll]
    rfl
  | cons r records ih =>
    rw [List.flatMap_cons, decodeAll]
    split
    · rename_i h
      rw [decode_encode_append] at h
      cases h
    · rename_i h
      rw [decode_encode_append] at h
      injection h with h
      obtain ⟨rfl, rfl⟩ := Prod.mk.inj h
      rw [List.drop_left' r.encode_length, ih]
      rfl

variable {sink : Sink δ} {sound : δ → Prop} {text : δ → Bytes}

theorem Sender.send_toSink (h : sink.StoresAll sound text) (r : Record) {d : δ} (hd : sound d) :
    ∃ d', (Sender.toSink sink).send r d = (.ok (), d') ∧ sound d' ∧ text d' = text d ++ r.encode := by
  obtain ⟨d₁, hheader, hsound₁, htext₁⟩ := h.write r.header d hd
  obtain ⟨d₂, hname, hsound₂, htext₂⟩ := h.write r.wireName d₁ hsound₁
  refine ⟨d₂, ?_, hsound₂, ?_⟩
  · simp [Sender.send, Sender.toSink, Sink.writeAll, hheader, hname]
  · rw [htext₂, htext₁, Record.encode, List.append_assoc]

end Deps

/-! ## Requests -/

/-- The requests of an action in their order, each with what was remembered when it was made. -/
def Script.Action.trace {α σ : Type} (answers : Answers σ) : Action α → σ → List (Request × σ)
  | done _, _ => []
  | ask q next, s => let r := answers q s; (q, s) :: (next r.1).trace answers r.2

/-- A script tells of no file itself. -/
theorem Script.Action.Scripted.trace_ne_report {α σ : Type} {answers : Answers σ}
    {x : Action (Outcome α × Store)} (hx : x.Scripted) (s : σ) :
    ∀ p ∈ x.trace answers s, ∀ path, p.1 ≠ .report path := by
  induction hx generalizing s with
  | done r =>
    intro p hp
    cases hp
  | @expand pattern next _ lost later ih =>
    intro p hp path
    rcases List.mem_cons.1 hp with rfl | hp
    · exact nofun
    · cases hreply : (answers (.expand pattern) s).1 with
      | none =>
        rw [hreply, lost] at hp
        cases hp
      | some paths =>
        rw [hreply] at hp
        exact ih paths _ p hp path
  | probe later ih | load later ih | emit later ih =>
    intro p hp path
    rcases List.mem_cons.1 hp with rfl | hp
    · exact nofun
    · exact ih _ _ p hp path

/-- What an action comes to depends on the replies to its own requests only. -/
theorem Script.Action.run_congr {α σ : Type} {answers other : Answers σ} {x : Action α} {s : σ}
    (h : ∀ p ∈ x.trace answers s, other p.1 p.2 = answers p.1 p.2) :
    x.run other s = x.run answers s ∧ x.trace other s = x.trace answers s := by
  induction x generalizing s with
  | done a => exact ⟨rfl, rfl⟩
  | ask q next ih =>
    have hfirst : other q s = answers q s := h (q, s) List.mem_cons_self
    obtain ⟨hrun, htrace⟩ := ih (answers q s).1 fun p hp => h p (List.mem_cons_of_mem _ hp)
    rw [run_ask, run_ask, trace, trace, hfirst]
    exact ⟨hrun, congrArg (List.cons _) htrace⟩

namespace Channels

variable {ω : Type}

/-- Channels to a parent behind an output of its own. -/
abbrev telling (style : Style) (files : ρ → FileSystem) (rules : Sink ρ) (sink : Sink δ)
    (depth : Nat) : Channels (ρ × δ) :=
  beside style files rules (.toSink sink) depth

/-- What is read for a request: the directories that are asked for and can be listed, the file of
a module that can be read, and a file that is told of. -/
def reads (c : Channels ω) (q : Request) (s : Session ω) : List Bytes :=
  let fs := c.files s.world
  match q with
  | .expand pattern =>
    (Glob.askedDirs fs.list c.style c.depth pattern).filter fun dir => (fs.list dir).isSome
  | .load path => if (fs.read path).isOk then [path] else []
  | .report path => [path]
  | .probe _ | .emit _ => []

variable {style : Style} {files : ρ → FileSystem} {rules : Sink ρ} {depth : Nat}
variable {sink : Sink δ} {sound : δ → Prop} {text : δ → Bytes}

/-- The session `s` has become `s'`, and these files and directories have been told of. -/
structure Told (sound : δ → Prop) (text : δ → Bytes) (names : List Bytes)
    (s s' : Session (ρ × δ)) : Prop where
  sound : sound s'.world.2
  text : text s'.world.2 = text s.world.2 ++ (names.map Record.input).flatMap Record.encode

theorem Told.refl {s : Session (ρ × δ)} (hs : sound s.world.2) : Told sound text [] s s :=
  ⟨hs, by simp⟩

theorem Told.trans {first second : List Bytes} {s s' s'' : Session (ρ × δ)}
    (h : Told sound text first s s') (h' : Told sound text second s' s'') :
    Told sound text (first ++ second) s s'' := by
  refine ⟨h'.sound, ?_⟩
  rw [h'.text, h.text, List.map_append, List.flatMap_append, List.append_assoc]

section
variable (style files rules depth)
variable (h : sink.StoresAll sound text)
include h

theorem reportInput_told (name : Bytes) {s : Session (ρ × δ)} (hs : sound s.world.2) :
    Told sound text [name] s
      ((telling style files rules sink depth).reportInput name s) := by
  obtain ⟨⟨w, d⟩, stream, warnings⟩ := s
  obtain ⟨d', hsend, hsound, htext⟩ := Sender.send_toSink h (.input name) hs
  have sent : (telling style files rules sink depth).reportInput name
      ⟨(w, d), stream, warnings⟩ = ⟨(w, d'), stream, warnings⟩ := by
    simp [reportInput, report, Sender.send_onSnd, hsend]
  rw [sent]
  exact ⟨hsound, by simp [htext]⟩

theorem foldl_reportInput_told (names : List Bytes) {s : Session (ρ × δ)}
    (hs : sound s.world.2) :
    Told sound text names s
      (names.foldl (fun s dir => (telling style files rules sink depth).reportInput dir s)
        s) := by
  induction names generalizing s with
  | nil => exact .refl hs
  | cons name names ih =>
    have first := reportInput_told style files rules depth h name hs
    exact first.trans (ih first.sound)

/-- Where a request is answered, the parent is told of what is read for it. -/
theorem answers_told (q : Request) {s : Session (ρ × δ)} (hs : sound s.world.2)
    (answered : ∀ pattern, q = .expand pattern →
      ((telling style files rules sink depth).expand pattern s).1 ≠ none) :
    Told sound text ((telling style files rules sink depth).reads q s) s
      ((telling style files rules sink depth).answers q s).2 := by
  cases q with
  | expand pattern =>
    have hne := answered pattern rfl
    simp only [answers, expand, reads] at hne ⊢
    cases hwalk : Glob.walk ((telling style files rules sink depth).files s.world).list
        (telling style files rules sink depth).style
        (telling style files rules sink depth).depth pattern with
    | none =>
      rw [hwalk] at hne
      exact absurd rfl hne
    | some events =>
      dsimp only
      rw [← Glob.listedDirs_eq_asked hwalk]
      exact foldl_reportInput_told style files rules depth h _ hs
  | probe path => exact .refl hs
  | load path =>
    simp only [answers, load, reads]
    cases ((telling style files rules sink depth).files s.world).read path with
    | error e => exact .refl hs
    | ok source => exact reportInput_told style files rules depth h path hs
  | emit rule =>
    obtain ⟨⟨w, d⟩, stream, warnings⟩ := s
    simp only [answers, emit, reads, beside_rules, RuleStream.add_onFst]
    exact ⟨hs, by simp⟩
  | report path => exact reportInput_told style files rules depth h path hs

/-- Where a script comes to an end, the parent is told of what is read for each of its
requests. -/
theorem run_told {α : Type} {x : Action (Outcome α × Store)} (hx : x.Scripted)
    {s : Session (ρ × δ)} (hs : sound s.world.2)
    (ends : ∀ store, (x.run (telling style files rules sink depth).answers s).1 ≠
      (.unfinished, store)) :
    Told sound text
      ((x.trace (telling style files rules sink depth).answers s).flatMap fun p =>
        (telling style files rules sink depth).reads p.1 p.2) s
      (x.run (telling style files rules sink depth).answers s).2 := by
  induction hx generalizing s with
  | done r => exact .refl hs
  | @expand pattern next store lost later ih =>
    cases hreply : ((telling style files rules sink depth).answers (.expand pattern) s).1 with
    | none =>
      -- nothing is told of a walk that does not end, but then the script does not end, either
      have unanswered : next ((telling style files rules sink depth).answers (.expand pattern) s).1 =
          .done (.unfinished, store) := by rw [hreply, lost]
      refine absurd ?_ (ends store)
      rw [Action.run_ask, unanswered]
      rfl
    | some paths =>
      have first := answers_told style files rules depth h (.expand pattern) hs fun _ hq => by
        cases hq
        exact fun hnone => nomatch hreply.symm.trans hnone
      simp only [Action.run_ask, Action.trace, hreply] at ends ⊢
      exact first.trans (ih paths first.sound ends)
  | @probe path next later ih =>
    have first := answers_told style files rules depth h (.probe path) hs nofun
    exact first.trans (ih _ first.sound ends)
  | @load path next later ih =>
    have first := answers_told style files rules depth h (.load path) hs nofun
    exact first.trans (ih _ first.sound ends)
  | @emit rule next later ih =>
    have first := answers_told style files rules depth h (.emit rule) hs nofun
    exact first.trans (ih _ first.sound ends)

/-- A whole script that comes to an end. The first that the parent is told of is the script
itself, and it does not tell of any file on its own. -/
theorem announced_told {α : Type} {script : Bytes} {x : Action (Outcome α × Store)}
    (hx : x.Announces script) {s : Session (ρ × δ)} (hs : sound s.world.2)
    (ends : (x.run (telling style files rules sink depth).answers s).1.1 ≠ .unfinished) :
    ∃ asked, x.trace (telling style files rules sink depth).answers s =
        (.report script, s) :: asked ∧
      (∀ p ∈ asked, ∀ path, p.1 ≠ .report path) ∧
      Told sound text
        (script :: asked.flatMap fun p => (telling style files rules sink depth).reads p.1 p.2) s
        (x.run (telling style files rules sink depth).answers s).2 := by
  cases hx with
  | stuck store => exact absurd rfl ends
  | @told next later =>
    have first := reportInput_told style files rules depth h script hs
    refine ⟨_, rfl, later.trace_ne_report _, first.trans ?_⟩
    apply run_told style files rules depth h later first.sound
    intro store hstore
    apply ends
    exact congrArg Prod.fst hstore

end

/-! ## After a script -/

/-- What an evaluation comes to, once the list of rules is open. -/
theorem evaluateRun_of_begin {c : Channels ω} {w w' : ω} {stream : RuleStream}
    (opened : RuleStream.begin c.rules w = (.ok stream, w')) (x : Run Unit) (o : Options) :
    let r := (x (Environment.start c.style)).run c.answers ⟨w', stream, []⟩
    c.evaluateRun x o w = c.conclude o r.1.1 r.2 := by
  rw [evaluateRun, opened]
  rfl

/-- The output that the parent is told of: that of a script that came to its end without an error,
with rules that could be finished. -/
def products (o : Options) (outcome : Outcome Unit) (finished : Except RuleError Nat) :
    List Record :=
  match outcome, finished, o.outputFile with
  | .value _, .ok _, some path => [.product path]
  | _, _, _ => []

section
variable (style files rules depth)
variable (h : sink.KeepsAll sound text)
include h

theorem giveUp_told (ending : Ending) (warnings : List Warning)
    {w : ρ} {d : δ} (hd : sound d) :
    text ((telling style files rules sink depth).giveUp ending warnings (w, d)).2.2.2 = text d := by
  obtain ⟨d', hflush, hsound, htext⟩ := h.flush d hd
  have dropped : (Sender.toSink sink).drop d = ([], sink.close d') := by
    simp [Sender.drop, Sender.toSink, hflush]
  have closed : rules.onFst.close (w, d) = (rules.close w, d) := rfl
  simp only [giveUp, beside_rules, beside_deps, closed, Sender.drop_onSnd, dropped]
  rw [h.close d' hsound, htext]

theorem flushed_told (ending : Ending) (warnings : List Warning)
    {w : ρ} {d : δ} (hd : sound d) :
    text ((telling style files rules sink depth).giveUp ending warnings
      ((telling style files rules sink depth).deps.flush (w, d)).2).2.2.2 = text d := by
  obtain ⟨d', hflush, hsound, htext⟩ := h.flush d hd
  have flush : (Sender.toSink sink).flush d = (.ok (), d') := hflush
  have flushed : (telling style files rules sink depth).deps.flush (w, d) = (.ok (), (w, d')) := by
    simp only [beside_deps, Sender.flush_onSnd, flush]
  rw [flushed, giveUp_told style files rules depth h ending warnings hsound, htext]

/-- What is told behind a script. -/
theorem conclude_told (o : Options) (outcome : Outcome Unit)
    {s : Session (ρ × δ)} (hs : sound s.world.2) :
    text ((telling style files rules sink depth).conclude o outcome s).2.2.2 =
      text s.world.2 ++
        (products o outcome (s.stream.finish rules s.world.1).1).flatMap Record.encode := by
  obtain ⟨⟨w, d⟩, stream, warnings⟩ := s
  cases outcome with
  | raised v =>
    rw [conclude, giveUp_told style files rules depth h _ _ hs]
    simp [products]
  | unfinished =>
    rw [conclude, giveUp_told style files rules depth h _ _ hs]
    simp [products]
  | value a =>
    simp only [conclude, complete, beside_rules, RuleStream.finish_onFst]
    rcases stream.finish rules w with ⟨e | count, stream', w'⟩
    · dsimp only
      rw [giveUp_told style files rules depth h _ _ hs]
      simp [products]
    cases hfile : o.outputFile with
    | none =>
      dsimp only
      rw [flushed_told style files rules depth h _ _ hs]
      simp [products, hfile]
    | some path =>
      obtain ⟨d', hsend, hsound, htext⟩ := Sender.send_toSink h.toStoresAll (.product path) hs
      have sent : (telling style files rules sink depth).reportProduct path
          ⟨(w', d), stream', warnings⟩ = ⟨(w', d'), stream', warnings⟩ := by
        simp [reportProduct, report, Sender.send_onSnd, hsend]
      dsimp only
      rw [sent, flushed_told style files rules depth h _ _ hsound, htext]
      simp [products, hfile]

/-- Everything that an evaluation writes to a parent that takes it, where the rules could be
opened and the script comes to an end: a record for the script, then one for every directory and
every module read, as they are asked for, and one for the output if all went well. It is read back
as these records, and a module that is loaded adds nothing to it. Any steps that tell of a script
first and of no file on their own will do in place of a script, and scripts are like that. -/
theorem evaluate_told (o : Options) {w w' : ρ} {d : δ} {stream : RuleStream} (hd : sound d)
    (opened : RuleStream.begin rules w = (.ok stream, w')) :
    let c := telling style files rules sink depth
    let s : Session (ρ × δ) := ⟨(w', d), stream, []⟩
    (∀ x : Run Unit, (x (Environment.start style)).Announces o.script →
      (c.evaluateRun x o (w, d)).1 ≠ .unfinished →
      let script := x (Environment.start style)
      let r := script.run c.answers s
      ∃ asked told, script.trace c.answers s = (.report o.script, s) :: asked ∧
        (∀ p ∈ asked, ∀ path, p.1 ≠ .report path) ∧
        told = .input o.script :: (asked.flatMap fun p => c.reads p.1 p.2).map Record.input ++
          products o r.1.1 (r.2.stream.finish rules r.2.world.1).1 ∧
        text (c.evaluateRun x o (w, d)).2.2.2 = text d ++ told.flatMap Record.encode ∧
        decodeAll (told.flatMap Record.encode) = (told.map Record.delivered, [])) ∧
    (∀ steps source,
      (o.program steps source (Environment.start style)).Announces o.script ∧
      c.evaluate steps o source (w, d) = c.evaluateRun (o.program steps source) o (w, d)) ∧
    ∀ (steps : Nat) (store : Store) (name : Bytes) (v : Value) (others : List Value)
      (s : Session (ρ × δ)),
      store.rawGet store.loaded (.string name.untilNul) = v → v.isTrue = true →
      (Library.require (Evaluator.host steps) (.string name :: others) store).trace c.answers s =
        [] := by
  intro c s
  refine ⟨?_, fun steps source => ⟨Environment.run_announces .., rfl⟩, ?_⟩
  · intro x announced ends script r
    have begun : RuleStream.begin c.rules (w, d) = (.ok stream, (w', d)) := by
      rw [beside_rules, RuleStream.begin_onFst, opened]
    have evaluated : c.evaluateRun x o (w, d) = c.conclude o r.1.1 r.2 :=
      evaluateRun_of_begin begun x o
    have hends : r.1.1 ≠ .unfinished := by
      intro hr
      rw [evaluated, hr] at ends
      exact ends rfl
    obtain ⟨asked, htrace, hasked, htold⟩ :=
      announced_told style files rules depth h.toStoresAll announced (s := s) hd hends
    refine ⟨asked, _, htrace, hasked, rfl, ?_, decodeAll_flatMap_encode _⟩
    have after := conclude_told style files rules depth h o r.1.1 htold.sound
    have before : text r.2.world.2 = text d ++ _ := htold.text
    rw [evaluated]
    refine after.trans ?_
    rw [htold.text, List.flatMap_append, ← List.append_assoc]
    rfl
  · intro steps store name v others s' hloaded hv
    cases steps with
    | zero => rfl
    | succ steps =>
      rw [Library.require_of_loaded hloaded hv]
      rfl

end

/-- A file in a directory, beside a module. -/
def usualTree : FileSystem :=
  ⟨.dir [(Bytes.ofAscii "d", .dir [(Bytes.ofAscii "a.c", .file [])]),
    (Bytes.ofAscii "m.lua", .file [])], []⟩

/-- Channels to that tree on which everything is stored. -/
abbrev usualChannels : Channels (LimitedOutput × LimitedOutput) :=
  telling .posix (fun _ => usualTree) LimitedOutput.sink LimitedOutput.sink 1

/-- A script that looks for files, loads a module twice and makes a rule. -/
def usualSource : Bytes :=
  Bytes.ofAscii "glob 'd/*.c' require 'm' require 'm' rule\x7btask=\x7b'cc'\x7d\x7d"

def usualOptions : Options := ⟨Bytes.ofAscii "x.lua", some (Bytes.ofAscii "out"), []⟩

/-- What becomes of it. -/
def usualRun : Ending × List Warning × (LimitedOutput × LimitedOutput) :=
  usualChannels.evaluate 20 usualOptions usualSource (.empty none false, .empty none false)

/-- The script, the directory, the module and the output. -/
def usualTold : List Record :=
  [.input (Bytes.ofAscii "x.lua"), .input (Bytes.ofAscii "d"), .input (Bytes.ofAscii "m.lua"),
    .product (Bytes.ofAscii "out")]

def usualRequests : List Request :=
  [.report (Bytes.ofAscii "x.lua"), .expand (Bytes.ofAscii "d/*.c"), .probe (Bytes.ofAscii "m.lua"),
    .load (Bytes.ofAscii "m.lua"), .emit ⟨[], ["cc"], []⟩]

/-- What the tree has for these requests. -/
def usualAnswers : Action.Answers (Session (LimitedOutput × LimitedOutput))
  | .expand _, s =>
    (some [Bytes.ofAscii "d/a.c"], usualChannels.reportInput (Bytes.ofAscii "d") s)
  | .probe _, s => (true, s)
  | .load path, s => (.ok [], usualChannels.reportInput path s)
  | q, s => usualChannels.answers q s

theorem usualAnswers_eq {q : Request} (hq : q ∈ usualRequests)
    (s : Session (LimitedOutput × LimitedOutput)) :
    usualChannels.answers q s = usualAnswers q s := by
  have hwalk : Glob.walk usualTree.list .posix 1 (Bytes.ofAscii "d/*.c") =
      some [.listed (Bytes.ofAscii "d"), .found (Bytes.ofAscii "d/a.c") false] := by cbv
  have hopen : usualTree.canOpen (Bytes.ofAscii "m.lua") = true := by cbv
  have hread : usualTree.read (Bytes.ofAscii "m.lua") = .ok [] := by cbv
  simp only [usualRequests, List.mem_cons, List.not_mem_nil, or_false] at hq
  obtain rfl | rfl | rfl | rfl | rfl := hq
  · rfl
  · simp only [answers, expand, beside_files, beside_style, beside_depth, hwalk]
    rfl
  · simp only [answers, beside_files, hopen]
    rfl
  · simp only [answers, load, beside_files, hread]
    rfl
  · rfl

/-- The output for the rules, with an open list. -/
def usualOpened : LimitedOutput := (RuleStream.begin LimitedOutput.sink (.empty none false)).2

/-- The session in which the script is run. -/
abbrev usualStart : Session (LimitedOutput × LimitedOutput) :=
  ⟨(usualOpened, .empty none false), ⟨0, false⟩, []⟩

theorem usualReads_eq {asked : List (Request × Session (LimitedOutput × LimitedOutput))}
    (h : asked.map Prod.fst = usualRequests.tail) :
    (asked.flatMap fun p => usualChannels.reads p.1 p.2) =
      [Bytes.ofAscii "d", Bytes.ofAscii "m.lua"] := by
  have hasked : ((Glob.askedDirs usualTree.list .posix 1 (Bytes.ofAscii "d/*.c")).filter
      fun dir => (usualTree.list dir).isSome) = [Bytes.ofAscii "d"] := by cbv
  have hread : (usualTree.read (Bytes.ofAscii "m.lua")).isOk = true := by cbv
  -- the tree is the same in all sessions
  have hsame : ∀ p : Request × Session (LimitedOutput × LimitedOutput),
      usualChannels.reads p.1 p.2 = usualChannels.reads p.1 usualStart := by
    rintro ⟨q, s⟩
    cases q <;> rfl
  calc (asked.flatMap fun p => usualChannels.reads p.1 p.2)
      = (asked.map Prod.fst).flatMap fun q => usualChannels.reads q usualStart := by
        rw [List.flatMap_map]
        exact congrArg asked.flatMap (funext hsame)
    _ = [Bytes.ofAscii "d", Bytes.ofAscii "m.lua"] := by
        rw [h]
        simp [usualRequests, reads, hasked, hread]

abbrev usualScript : Script.Action (Outcome Unit × Store) :=
  usualOptions.program 20 usualSource (Environment.start .posix)

/-- The run of the script on what the tree has for its requests. -/
theorem usual_requests :
    let r := usualScript.run usualAnswers usualStart
    (usualScript.trace usualAnswers usualStart).map Prod.fst = usualRequests ∧
      (usualChannels.conclude usualOptions r.1.1 r.2).1 = .complete 1 ∧
      products usualOptions r.1.1 (r.2.stream.finish LimitedOutput.sink r.2.world.1).1 =
        [.product (Bytes.ofAscii "out")] := by decide +kernel

theorem usualRun_eq : usualRun = usualChannels.conclude usualOptions
    (usualScript.run usualChannels.answers usualStart).1.1
    (usualScript.run usualChannels.answers usualStart).2 := by
  have begun : RuleStream.begin usualChannels.rules (.empty none false, .empty none false) =
      (.ok ⟨0, false⟩, (usualOpened, .empty none false)) := by
    rw [beside_rules, RuleStream.begin_onFst]
    rfl
  rw [usualRun, evaluate, evaluateRun_of_begin begun, beside_style]

/-- The second time the module is loaded, nothing is told. -/
theorem evaluate_told_fourRecords :
    usualRun.1 = .complete 1 ∧
    usualRun.2.2.2.stored = usualTold.flatMap Record.encode ∧
    decodeAll usualRun.2.2.2.stored = (usualTold, []) := by
  obtain ⟨hrequests, hending, hproduct⟩ := usual_requests
  have hanswers : ∀ p ∈ usualScript.trace usualAnswers usualStart,
      usualChannels.answers p.1 p.2 = usualAnswers p.1 p.2 := by
    intro p hp
    exact usualAnswers_eq (hrequests ▸ List.mem_map_of_mem hp) p.2
  obtain ⟨hrun, htrace⟩ := Script.Action.run_congr hanswers
  rw [← hrun] at hending hproduct
  rw [← htrace] at hrequests
  have complete : usualRun.1 = .complete 1 := by rw [usualRun_eq, hending]
  have opened : RuleStream.begin LimitedOutput.sink (.empty none false) =
      (.ok ⟨0, false⟩, usualOpened) := rfl
  obtain ⟨htold, hscripts, -⟩ := evaluate_told .posix (fun _ => usualTree) LimitedOutput.sink 1
    LimitedOutput.keepsAll usualOptions (d := .empty none false) ⟨rfl, rfl⟩ opened
  obtain ⟨announced, hsame⟩ := hscripts 20 usualSource
  have same : usualRun = _ := hsame
  have ends : usualRun.1 ≠ .unfinished := by
    rw [complete]
    exact nofun
  obtain ⟨asked, told, hasked, -, htold, hwritten, hdecode⟩ := htold _ announced ends
  have hrest : asked.map Prod.fst = usualRequests.tail := by
    rw [← hrequests, hasked]
    rfl
  have hall : told = usualTold := by
    rw [htold, usualReads_eq hrest, hproduct]
    rfl
  have hempty : LimitedOutput.stored (.empty none false) = [] := rfl
  rw [hempty, List.nil_append, hall, ← same] at hwritten
  have hwhole : usualTold.map Record.delivered = usualTold := rfl
  rw [hall, hwhole] at hdecode
  rw [hwritten]
  exact ⟨complete, rfl, hdecode⟩

end Channels

end BuildScript
