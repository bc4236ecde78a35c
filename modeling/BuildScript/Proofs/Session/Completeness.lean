import BuildScript.Proofs.Rules.Filling
import BuildScript.Proofs.Rules.Skipping
import BuildScript.Proofs.Session.Isolation
import BuildScript.Proofs.Session.Telling

/-!
# Whole lists of rules

A list of rules is closed only behind a script that came to its end, and only if all rules of the
calls that went well are in it. A script may catch what a call raises and go on, but it does not
get behind an output that is full.

* `Channels.made`: the rules that were written, of all that were asked for;
* `Library.rule_eq`: a call that makes a rule reads a table and then asks for the rule;
* `Channels.rule_made`: such a call returns if, and only if, its rule is written;
* `Channels.answers_filling`, `Channels.run_filling`: what requests make of the list;
* `Channels.conclude_complete`, `Channels.conclude_failed`: what stands in the output at the end;
* `Channels.evaluate_whole`: all of it.
-/

namespace BuildScript

open Files Deps Script Json BuildScript.Path

/-! ## Traces -/

namespace Script.Action

variable {α β σ : Type} {answers : Answers σ}

theorem trace_bind (x : Action α) (f : α → Action β) (s : σ) :
    (x.bind f).trace answers s =
      x.trace answers s ++ (f (x.run answers s).1).trace answers (x.run answers s).2 := by
  induction x generalizing s with
  | done a => rfl
  | ask q next ih =>
    rw [bind, trace, trace, run_ask, ih, List.cons_append]

end Script.Action

namespace Script.Run

variable {α β σ : Type} {answers : Action.Answers σ} {x : Run α} {f : α → Run β}
variable {store store' : Store} {s s' : σ}

/-- Behind a step that gives a value comes the next. -/
theorem trace_of_value {a : α} (hx : (x store).run answers s = ((.value a, store'), s')) :
    ((x >>= f) store).run answers s = (f a store').run answers s' ∧
      ((x >>= f) store).trace answers s =
        (x store).trace answers s ++ (f a store').trace answers s' := by
  rw [bind_apply, Action.run_bind, Action.trace_bind, hx]
  exact ⟨rfl, rfl⟩

/-- Nothing comes behind a step that gives no value. -/
theorem trace_of_not_value (hx : ∀ a, ((x store).run answers s).1.1 ≠ .value a) :
    (∀ b, (((x >>= f) store).run answers s).1.1 ≠ .value b) ∧
      ((x >>= f) store).trace answers s = (x store).trace answers s := by
  rw [bind_apply, Action.run_bind, Action.trace_bind]
  rcases hread : (x store).run answers s with ⟨⟨a | v | _, store'⟩, s'⟩
  · rw [hread] at hx
    exact absurd rfl (hx a)
  · exact ⟨by simp, List.append_nil _⟩
  · exact ⟨by simp, List.append_nil _⟩

end Script.Run

/-! ## Calls that make rules -/

namespace Script.Library

open Run

/-- The rule that a table describes. -/
def tableRule (h : Host) (arguments : List Value) : Run Rule :=
  match argument arguments 1 with
  | .table id => do
    let inputs ← ruleList h (.table id) "inputs"
    let task ← ruleList h (.table id) "task"
    let outputs ← ruleList h (.table id) "outputs"
    return ⟨inputs, task, outputs⟩
  | v => fail (wrongArgument 1 "rule" "table" v.exactTypeName)

/-- The last step of a call that makes a rule. -/
def writeRule (rule : Rule) : Run (List Value) := do
  match ← ask (.emit rule) with
  | .ok _ => return []
  | .error e => fail (.external e.message)

theorem writeRule_eq (rule : Rule) (store : Store) :
    writeRule rule store = .ask (.emit rule) fun r =>
      match r with
      | .ok _ => .done (.value [], store)
      | .error e => .done (.raised (.fault (.external e.message)), store) := by
  refine congrArg (Action.ask (.emit rule)) (funext fun r => ?_)
  cases r <;> rfl

theorem rule_eq (h : Host) (arguments : List Value) :
    rule h arguments = tableRule h arguments >>= writeRule := by
  have hpure : ∀ r : Rule, (pure r : Run Rule) >>= writeRule = writeRule r := fun _ => rfl
  rw [rule, tableRule]
  cases argument arguments 1 with
  | table id =>
    dsimp only
    simp only [Run.bind_assoc, hpure]
    refine congrArg _ (funext fun inputs => congrArg _ (funext fun task => congrArg _
      (funext fun outputs => congrArg _ (funext fun reply => ?_))))
    cases reply <;> rfl
  | _ => rfl

end Script.Library

namespace Channels

variable {ω : Type}

/-- The rules that were written, of all that were asked for. -/
def made (c : Channels ω) (asked : List (Request × Session ω)) : List Rule :=
  asked.filterMap fun p =>
    match p.1 with
    | .emit rule => if (c.emit rule p.2).1.isOk then some rule else none
    | _ => none

theorem made_append (c : Channels ω) (before after : List (Request × Session ω)) :
    c.made (before ++ after) = c.made before ++ c.made after := List.filterMap_append

theorem made_emit (c : Channels ω) (rule : Rule) (s : Session ω) :
    c.made [(.emit rule, s)] = if (c.emit rule s).1.isOk then [rule] else [] := by
  by_cases hok : (c.emit rule s).1.isOk
  · simp [made, hok]
  · simp [made, hok]

/-- The last step of a call gives a value if the rule was written. -/
theorem writeRule_made (c : Channels ω) (rule : Rule) (store : Store) (s : Session ω) :
    c.made ((Library.writeRule rule store).trace c.answers s) =
        (if (c.emit rule s).1.isOk then [rule] else []) ∧
      ((c.emit rule s).1.isOk ↔
        ∃ vs, ((Library.writeRule rule store).run c.answers s).1.1 = .value vs) := by
  have htrace : (Library.writeRule rule store).trace c.answers s = [(.emit rule, s)] := by
    rw [Library.writeRule_eq, Action.trace]
    cases (c.answers (.emit rule) s).1 <;> rfl
  have hanswer : c.answers (.emit rule) s = c.emit rule s := rfl
  rw [htrace, made_emit, Library.writeRule_eq, Action.run_ask, hanswer]
  refine ⟨rfl, ?_⟩
  rcases (c.emit rule s).1 with e | u
  · refine iff_of_false Bool.false_ne_true ?_
    rintro ⟨_, ⟨⟩⟩
  · exact ⟨fun _ => ⟨[], rfl⟩, fun _ => rfl⟩

/-- A call that makes a rule returns if the rule was written, behind what was written while its
table was read. In all other cases it writes no rule of its own. -/
theorem rule_made (c : Channels ω) (h : Host) (arguments : List Value) (store : Store)
    (s : Session ω) :
    let reading := Library.tableRule h arguments store
    let call := Library.rule h arguments store
    (∀ vs, (call.run c.answers s).1.1 = .value vs → ∃ rule,
      (reading.run c.answers s).1.1 = .value rule ∧
      c.made (call.trace c.answers s) = c.made (reading.trace c.answers s) ++ [rule]) ∧
    ((∀ vs, (call.run c.answers s).1.1 ≠ .value vs) →
      c.made (call.trace c.answers s) = c.made (reading.trace c.answers s)) := by
  intro reading call
  have hcall : call = (Library.tableRule h arguments >>= Library.writeRule) store := by
    rw [← Library.rule_eq]
  by_cases hread : ∃ rule, (reading.run c.answers s).1.1 = .value rule
  · obtain ⟨rule, hrule⟩ := hread
    generalize hstore : (reading.run c.answers s).1.2 = store'
    generalize hsession : (reading.run c.answers s).2 = s'
    have hx : (Library.tableRule h arguments store).run c.answers s = ((.value rule, store'), s') :=
      Prod.ext (Prod.ext hrule hstore) hsession
    obtain ⟨hrun, htrace⟩ := Run.trace_of_value (f := Library.writeRule) hx
    obtain ⟨hlast, hvalue⟩ := c.writeRule_made rule store' s'
    rw [hcall, hrun, htrace, made_append, hlast]
    constructor
    · intro vs hvs
      refine ⟨rule, hrule, ?_⟩
      rw [if_pos (hvalue.2 ⟨vs, hvs⟩)]
    · intro hnone
      rw [if_neg, List.append_nil]
      intro hok
      obtain ⟨vs, hvs⟩ := hvalue.1 hok
      exact hnone vs hvs
  · have hx : ∀ rule, ((Library.tableRule h arguments store).run c.answers s).1.1 ≠ .value rule :=
      fun rule hrule => hread ⟨rule, hrule⟩
    obtain ⟨hnone, htrace⟩ := Run.trace_of_not_value (f := Library.writeRule) hx
    rw [hcall, htrace]
    exact ⟨fun vs hvs => absurd hvs (hnone vs), fun _ => rfl⟩

/-! ## Requests -/

variable {ρ δ : Type} {style : Style} {files : ρ → FileSystem} {rules : Sink ρ} {depth : Nat}
variable {sender : Sender δ} {sound full : ρ → Prop} {text : ρ → Bytes}

section
variable (style files rules depth sender)

theorem answers_quiet {q : Request} (hq : ∀ rule, q ≠ .emit rule) (s : Session ρ) :
    ((quiet style files rules depth).answers q s).2 = s := by
  cases q with
  | expand pattern =>
    simp only [answers, expand]
    split
    · rfl
    · exact foldl_reportInput_quiet _ s
  | probe path => rfl
  | load path =>
    simp only [answers, load]
    split <;> rfl
  | emit rule => exact absurd rfl (hq rule)
  | report path => rfl

/-- Only a request for a rule does anything to the rules. -/
theorem answers_keeps {q : Request} (hq : ∀ rule, q ≠ .emit rule) (s : Session (ρ × δ)) :
    ((beside style files rules sender depth).answers q s).2.erase = s.erase := by
  have hagree : (quiet style files rules depth).answers q s.erase =
      (((beside style files rules sender depth).answers q s).1,
        ((beside style files rules sender depth).answers q s).2.erase) := answers_erase q s
  rw [← answers_quiet style files rules depth hq s.erase, hagree]

end

/-- The list in a session is open, and the rules stand in it if the output is not full. -/
def Filling (sound full : ρ → Prop) (text : ρ → Bytes) (base : Bytes) (made : List Rule)
    (s : Session ρ) : Prop :=
  RuleStream.Filling sound full text base made s.stream s.world

section
variable (style files depth sender) (h : rules.FillsUp sound full text)
include h

/-- A rule stands in the list as soon as it is written, or the output is full. -/
theorem answers_filling {base : Bytes} {made : List Rule}
    (q : Request) {s : Session (ρ × δ)} (hs : Filling sound full text base made s.erase) :
    let c := beside style files rules sender depth
    Filling sound full text base (made ++ c.made [(q, s)]) (c.answers q s).2.erase := by
  intro c
  by_cases hq : ∃ rule, q = .emit rule
  · obtain ⟨rule, rfl⟩ := hq
    obtain ⟨⟨w, d⟩, stream, warnings⟩ := s
    obtain ⟨result, stream', w', hadd, hfilling⟩ := RuleStream.Filling.add h hs rule
    have hemit : c.emit rule ⟨(w, d), stream, warnings⟩ =
        (result, ⟨(w', d), stream', warnings⟩) := by
      have hadd' : stream.add rules rule w = (result, stream', w') := hadd
      simp only [c, emit, beside_rules, RuleStream.add_onFst, hadd']
    have hanswer : c.answers (.emit rule) ⟨(w, d), stream, warnings⟩ =
        (result, ⟨(w', d), stream', warnings⟩) := hemit
    rw [made_emit, hemit, hanswer]
    exact hfilling
  · have hnone : c.made [(q, s)] = [] := by
      cases q with
      | emit rule => exact absurd ⟨rule, rfl⟩ hq
      | _ => rfl
    rw [hnone, List.append_nil, answers_keeps style files rules depth sender fun rule hrule =>
      hq ⟨rule, hrule⟩]
    exact hs

/-- All requests of an action. -/
theorem run_filling {α : Type} (x : Action α) {base : Bytes}
    {made : List Rule} {s : Session (ρ × δ)} (hs : Filling sound full text base made s.erase) :
    let c := beside style files rules sender depth
    Filling sound full text base (made ++ c.made (x.trace c.answers s))
      (x.run c.answers s).2.erase := by
  intro c
  induction x generalizing made s with
  | done a =>
    simpa [Action.trace, Channels.made] using hs
  | ask q next ih =>
    have hstep := ih (c.answers q s).1 (answers_filling style files depth sender h q hs)
    have htrace : (Action.ask q next).trace c.answers s =
        [(q, s)] ++ (next (c.answers q s).1).trace c.answers (c.answers q s).2 := rfl
    rw [htrace, made_append, ← List.append_assoc]
    exact hstep

end

/-! ## After a script -/

section
variable (style files rules depth)

theorem giveUp_quiet (ending : Ending) (warnings : List Warning) (w : ρ) :
    (quiet style files rules depth).giveUp ending warnings w = (ending, warnings, rules.close w) := by
  simp [giveUp, Sender.drop, Sender.inert]

theorem complete_quiet (o : Options) (s : Session ρ) :
    ((quiet style files rules depth).complete o s).2.2 =
        rules.close (s.stream.finish rules s.world).2.2 ∧
      ((quiet style files rules depth).complete o s).1 =
        match (s.stream.finish rules s.world).1 with
        | .ok n => .complete n
        | .error e => .failed (.rules e) := by
  obtain ⟨w, stream, warnings⟩ := s
  simp only [complete, quiet_rules]
  rcases stream.finish rules w with ⟨e | n, stream', w'⟩
  · simp only [giveUp_quiet, and_self]
  · dsimp only
    cases o.outputFile with
    | none => simp [giveUp_quiet, Sender.flush, Sender.inert]
    | some path =>
      simp [giveUp_quiet, Sender.flush, Sender.inert, reportProduct, report, Sender.send]

end

section
variable (style files depth sender)

/-- A script that is complete has left a list of the rules that were written. -/
theorem conclude_complete (h : rules.FillsUp sound full text) (o : Options)
    (outcome : Outcome Unit) {base : Bytes} {made : List Rule} {s : Session ρ}
    (hs : Filling sound full text base made s) {n : Nat}
    (hend : ((quiet style files rules depth).conclude o outcome s).1 = .complete n) :
    n = made.length ∧ text ((quiet style files rules depth).conclude o outcome s).2.2 =
      base ++ RuleStream.document made := by
  cases outcome with
  | raised v =>
    rw [conclude, giveUp_quiet] at hend
    cases hend
  | unfinished =>
    rw [conclude, giveUp_quiet] at hend
    cases hend
  | value u =>
    rw [conclude] at hend ⊢
    obtain ⟨hclosed, hresult⟩ := complete_quiet style files rules depth o s
    obtain ⟨result, stream', w', hfinish, hsound, hok⟩ := RuleStream.Filling.finish h hs
    rw [hfinish] at hclosed hresult
    rw [hresult] at hend
    cases result with
    | error e => cases hend
    | ok count =>
      obtain rfl : count = n := by simpa using hend
      obtain ⟨hcount, htext⟩ := hok count rfl
      exact ⟨hcount, by rw [hclosed, h.close w' hsound, htext]⟩

/-- A script that failed has left a list that is open. -/
theorem conclude_failed (h : rules.KeepsAll sound text) (o : Options) (outcome : Outcome Unit)
    {base : Bytes} {made : List Rule} {s : Session ρ}
    (hs : Filling sound (fun _ => False) text base made s) {e : EvaluationError}
    (hend : ((quiet style files rules depth).conclude o outcome s).1 = .failed e) :
    text ((quiet style files rules depth).conclude o outcome s).2.2 =
      base ++ RuleStream.unfinished made := by
  have hstands := hs.stands.resolve_left id
  cases outcome with
  | raised v =>
    rw [conclude, giveUp_quiet]
    dsimp only
    rw [h.close _ hs.isSound, hstands.text, if_neg (by simp [hs.isOpen])]
  | unfinished =>
    rw [conclude, giveUp_quiet] at hend
    cases hend
  | value u =>
    -- nothing fails here, so the list is closed
    obtain ⟨-, hresult⟩ := complete_quiet style files rules depth o s
    obtain ⟨stream', w', hfinish, -, -, -⟩ := hstands.finish h.toStoresAll
    rw [conclude, hresult, hfinish] at hend
    cases hend

/-- What becomes of a script, and what it leaves in the output, whoever is told of it. -/
theorem conclude_beside (o : Options) (outcome : Outcome Unit) (s : Session (ρ × δ)) :
    ((beside style files rules sender depth).conclude o outcome s).1 =
        ((quiet style files rules depth).conclude o outcome s.erase).1 ∧
      ((beside style files rules sender depth).conclude o outcome s).2.2.1 =
        ((quiet style files rules depth).conclude o outcome s.erase).2.2 := by
  have herase : (quiet style files rules depth).conclude o outcome s.erase =
      eraseResult ((beside style files rules sender depth).conclude o outcome s) :=
    conclude_erase o outcome s
  rw [herase]
  exact ⟨rfl, rfl⟩

/-- An output that never fails is one that is never full. -/
theorem fillsUp_of_keepsAll (h : rules.KeepsAll sound text) :
    rules.FillsUp sound (fun _ => False) text where
  write bs w hw := by
    obtain ⟨w', hwrite, hsound, htext⟩ := h.write bs w hw
    exact .inl ⟨w', hwrite, hsound, htext, False.elim⟩
  flush w hw := by
    obtain ⟨w', hflush, hsound, htext⟩ := h.flush w hw
    rw [hflush]
    exact ⟨hsound, htext⟩
  close := h.close

/-- What an evaluation comes to, once the list is open. -/
theorem evaluateRun_filling (h : rules.FillsUp sound full text) (x : Run Unit) (o : Options)
    {w w' : ρ} (hw : sound w) (d : δ) {stream : RuleStream}
    (hbegin : RuleStream.begin rules w = (.ok stream, w')) :
    let c := beside style files rules sender depth
    let script := x (Environment.start style)
    ∃ outcome after,
      Filling sound full text (text w)
        (c.made (script.trace c.answers ⟨(w', d), stream, []⟩)) after ∧
      (c.evaluateRun x o (w, d)).1 =
        ((quiet style files rules depth).conclude o outcome after).1 ∧
      (c.evaluateRun x o (w, d)).2.2.1 =
        ((quiet style files rules depth).conclude o outcome after).2.2 := by
  intro c script
  let s : Session (ρ × δ) := ⟨(w', d), stream, []⟩
  have hfilling : Filling sound full text (text w) ([] ++ c.made (script.trace c.answers s))
      (script.run c.answers s).2.erase :=
    run_filling style files depth sender h script (RuleStream.begin_filling h hw hbegin)
  have hopened : RuleStream.begin c.rules (w, d) = (.ok stream, (w', d)) := by
    rw [beside_rules, RuleStream.begin_onFst, hbegin]
  have hconclude : c.evaluateRun x o (w, d) =
      c.conclude o (script.run c.answers s).1.1 (script.run c.answers s).2 :=
    evaluateRun_of_begin hopened x o
  rw [hconclude]
  exact ⟨_, _, hfilling, conclude_beside style files depth sender o _ _⟩

/-- An evaluation that is complete has left a document that holds, in order, the rules of all calls
that returned, and says how many they are, on an output that never fails or takes some number of
bytes only. On one that never fails, an evaluation that failed has left no document. So it is for
scripts and for any other steps in their place. -/
theorem evaluate_whole (h : rules.FillsUp sound full text) (o : Options) {w : ρ} (hw : sound w)
    (d : δ) :
    let c := beside style files rules sender depth
    (∀ x : Run Unit,
      let ended := c.evaluateRun x o (w, d)
      (∀ n, ended.1 = .complete n → ∃ stream w', RuleStream.begin rules w = (.ok stream, w') ∧
        ∃ made own,
          made = c.made ((x (Environment.start style)).trace c.answers ⟨(w', d), stream, []⟩) ∧
          text ended.2.2.1 = text w ++ own ∧ own = RuleStream.document made ∧
          readRules own = .ok made ∧ skipValue own = .ok [RuleStream.newline] ∧ n = made.length) ∧
      (rules.KeepsAll sound text → ∀ e, ended.1 = .failed e →
        ∃ own, text ended.2.2.1 = text w ++ own ∧ skipValue own = .error .ended ∧
          ∀ made, own ≠ RuleStream.document made)) ∧
    (∀ steps source,
      c.evaluate steps o source (w, d) = c.evaluateRun (o.program steps source) o (w, d)) ∧
    ∀ (host : Host) (arguments : List Value) (store : Store) (s : Session (ρ × δ)),
      let reading := Library.tableRule host arguments store
      let call := Library.rule host arguments store
      (∀ vs, (call.run c.answers s).1.1 = .value vs → ∃ rule,
        (reading.run c.answers s).1.1 = .value rule ∧
        c.made (call.trace c.answers s) = c.made (reading.trace c.answers s) ++ [rule]) ∧
      ((∀ vs, (call.run c.answers s).1.1 ≠ .value vs) →
        c.made (call.trace c.answers s) = c.made (reading.trace c.answers s)) := by
  intro c
  refine ⟨fun x => ⟨?_, ?_⟩, fun steps source => rfl, c.rule_made⟩
  · intro n hend
    rcases hbegin : RuleStream.begin rules w with ⟨e | stream, w'⟩
    · have hrefused : RuleStream.begin c.rules (w, d) = (.error e, (w', d)) := by
        rw [beside_rules, RuleStream.begin_onFst, hbegin]
      simp only [evaluateRun, hrefused] at hend
      cases hend
    · obtain ⟨outcome, after, hfilling, hending, hworld⟩ :=
        evaluateRun_filling style files depth sender h x o hw d hbegin
      obtain ⟨hcount, htext⟩ :=
        conclude_complete style files depth h o outcome hfilling (hending.symm.trans hend)
      refine ⟨stream, w', rfl, _, _, rfl, ?_, rfl, RuleStream.readRules_document _,
        RuleStream.skipValue_document _, hcount⟩
      exact (congrArg text hworld).trans htext
  · intro hkeeps e hend
    have hfills := fillsUp_of_keepsAll hkeeps
    obtain ⟨w', hbegin, -⟩ := RuleStream.begin_stands hkeeps.toStoresAll hw
    obtain ⟨outcome, after, hfilling, hending, hworld⟩ :=
      evaluateRun_filling style files depth sender hfills x o hw d hbegin
    have htext :=
      conclude_failed style files depth hkeeps o outcome hfilling (hending.symm.trans hend)
    exact ⟨_, (congrArg text hworld).trans htext, RuleStream.unfinished_unclosed _,
      RuleStream.unfinished_ne_document _⟩

end

def aloneOptions : Options := ⟨Bytes.ofAscii "x.lua", none, []⟩

/-- Runs a script with an output for its rules that takes so many bytes at most. -/
def runOn (limit : Option Nat) (source : Bytes) :
    Ending × List Warning × (LimitedOutput × LimitedOutput) :=
  (beside .posix (fun _ => ⟨.dir [], []⟩) LimitedOutput.sink (.toSink LimitedOutput.sink) 1).evaluate
    30 aloneOptions source (.empty limit false, .empty none false)

/-- A call that goes wrong, which is caught, and then a rule. -/
def caughtSource : Bytes := Bytes.ofAscii "pcall(rule,1) rule\x7btask=\x7b'cc'\x7d\x7d"

/-- A rule, and then an error. -/
def brokenSource : Bytes := Bytes.ofAscii "rule\x7btask=\x7b'cc'\x7d\x7d error'x'"

theorem runOn_endings : (runOn (some 45) caughtSource).1 = .complete 1 ∧
    (runOn none brokenSource).1 = .failed (.script (.runtime "x.lua:1: x")) := by decide +kernel

/-- The first output is full at its end, and the second has no end. -/
theorem evaluate_whole_caught :
    (∃ made, (runOn (some 45) caughtSource).2.2.1.stored = RuleStream.document made ∧
      readRules (runOn (some 45) caughtSource).2.2.1.stored = .ok made ∧ made.length = 1) ∧
    skipValue (runOn none brokenSource).2.2.1.stored = .error .ended := by
  constructor
  · obtain ⟨hwhole, hscripts, -⟩ := evaluate_whole .posix (fun _ => ⟨.dir [], []⟩) 1
      (.toSink LimitedOutput.sink) LimitedOutput.fillsUp aloneOptions
      (w := .empty (some 45) false) trivial (.empty none false)
    have hran : runOn (some 45) caughtSource = _ := hscripts 30 caughtSource
    obtain ⟨hcomplete, -⟩ := hwhole (aloneOptions.program 30 caughtSource)
    rw [← hran] at hcomplete
    obtain ⟨-, -, -, made, own, -, htext, hown, hread, -, hcount⟩ := hcomplete 1 runOn_endings.1
    have hempty : (LimitedOutput.empty (some 45) false).stored = [] := rfl
    rw [hempty, List.nil_append] at htext
    rw [htext]
    exact ⟨made, hown, hread, hcount.symm⟩
  · have hunlimited : LimitedOutput.Unlimited (.empty none false) := ⟨rfl, rfl⟩
    obtain ⟨hwhole, hscripts, -⟩ := evaluate_whole .posix (fun _ => ⟨.dir [], []⟩) 1
      (.toSink LimitedOutput.sink) (fillsUp_of_keepsAll LimitedOutput.keepsAll) aloneOptions
      hunlimited (.empty none false)
    have hran : runOn none brokenSource = _ := hscripts 30 brokenSource
    obtain ⟨-, hfailed⟩ := hwhole (aloneOptions.program 30 brokenSource)
    rw [← hran] at hfailed
    obtain ⟨own, htext, hskip, -⟩ := hfailed LimitedOutput.keepsAll _ runOn_endings.2
    have hempty : (LimitedOutput.empty none false).stored = [] := rfl
    rw [hempty, List.nil_append] at htext
    rw [htext, hskip]

end Channels

end BuildScript
