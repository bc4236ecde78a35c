import BuildScript.Proofs.Session.Completeness

/-!
# Sessions in which nothing goes wrong

Where the rules are stored whatever happens, and where telling the parent does nothing to them, a
script finds all its rules written, and the output holds them in the end: as a document if the
script came to its end, else as a list that is still open.

* `Channels.Steady`: such channels;
* `Channels.rulesMade`: the rules that are made in an evaluation;
* `Channels.answers_steady`, `Channels.run_steady`: one request, and all requests of a script;
* `Channels.evaluateRun_steady`: what is left in the output.
-/

namespace BuildScript

open Files Deps Script BuildScript.Path

variable {ω : Type}

theorem RuleStream.Stands.elsewhere {sound : ω → Prop} {text : ω → Bytes} {base : Bytes}
    {rules : List Rule} {s : RuleStream} {w w' : ω} (hs : Stands sound text base rules s w)
    (hsound : sound w') (htext : text w' = text w) : Stands sound text base rules s w' :=
  ⟨hsound, hs.count, htext.trans hs.text⟩

namespace Channels

/-! ## Channels -/

/-- Channels whose rules are all stored, and whose parent can be told without any effect on them. -/
structure Steady (c : Channels ω) (sound : ω → Prop) (text : ω → Bytes) : Prop where
  rules : c.rules.StoresAll sound text
  send : ∀ r w, sound w → ∃ w', c.deps.send r w = (.ok (), w') ∧ sound w' ∧ text w' = text w
  flush : ∀ w, sound w → ∃ w', c.deps.flush w = (.ok (), w') ∧ sound w' ∧ text w' = text w

/-- The requests of the steps of an evaluation, from the opening of the list on. -/
def asked (c : Channels ω) (script : Run Unit) (w : ω) : List (Request × Session ω) :=
  (script (Environment.start c.style)).trace c.answers
    ⟨(RuleStream.begin c.rules w).2, ⟨0, false⟩, []⟩

/-- The rules that they make. -/
def rulesMade (c : Channels ω) (script : Run Unit) (w : ω) : List Rule := c.made (c.asked script w)

/-- What is left of some rules in an output that stores everything, however the script ended. -/
inductive Leaves (made : List Rule) : Ending → Bytes → Prop where
  | complete : Leaves made (.complete made.length) (RuleStream.document made)
  | failed (f : Fault) : Leaves made (.failed (.script f)) (RuleStream.unfinished made)
  | unfinished : Leaves made .unfinished (RuleStream.unfinished made)

/-- Behind a script that came to its end the list is finished. -/
theorem Leaves.eq_document {made : List Rule} {n : Nat} {own : Bytes}
    (h : Leaves made (.complete n) own) : n = made.length ∧ own = RuleStream.document made := by
  cases h
  exact ⟨rfl, rfl⟩

/-- The list in a session is open, and the rules stand in it. -/
structure Holding (sound : ω → Prop) (text : ω → Bytes) (base : Bytes) (made : List Rule)
    (s : Session ω) : Prop where
  isOpen : s.stream.finished = false
  stands : RuleStream.Stands sound text base made s.stream s.world

section
variable {c : Channels ω} {sound : ω → Prop} {text : ω → Bytes} {base : Bytes} {made : List Rule}
variable {s : Session ω}

/-! ## Requests -/

/-- What the parent is told changes nothing that matters, and nothing is warned about. -/
theorem report_steady (h : c.Steady sound text) (r : Record) (warning : Warning) (s : Session ω)
    (hs : sound s.world) :
    ∃ w', c.report r warning s = { s with world := w' } ∧ sound w' ∧ text w' = text s.world := by
  obtain ⟨w', hsend, hsound, htext⟩ := h.send r s.world hs
  refine ⟨w', ?_, hsound, htext⟩
  rw [Channels.report, hsend]

theorem Holding.reportInput (h : c.Steady sound text) (name : Bytes)
    (hs : Holding sound text base made s) :
    Holding sound text base made (c.reportInput name s) := by
  obtain ⟨w', hreport, hsound, htext⟩ :=
    report_steady h (.input name) .inputLost s hs.stands.sound
  rw [Channels.reportInput, hreport]
  exact ⟨hs.isOpen, hs.stands.elsewhere hsound htext⟩

theorem Holding.foldl_reportInput (h : c.Steady sound text) (names : List Bytes)
    (hs : Holding sound text base made s) :
    Holding sound text base made (names.foldl (fun s dir => c.reportInput dir s) s) := by
  induction names generalizing s with
  | nil => exact hs
  | cons name names ih => exact ih (hs.reportInput h name)

/-- A rule that is asked for is written. -/
theorem Holding.emit (h : c.Steady sound text) (hs : Holding sound text base made s) (rule : Rule) :
    (c.emit rule s).1 = .ok () ∧
      Holding sound text base (made ++ [rule]) (c.emit rule s).2 := by
  obtain ⟨stream', w', hadd, hopen, hstands⟩ := hs.stands.add h.rules hs.isOpen rule
  rw [Channels.emit, hadd]
  exact ⟨rfl, hopen, hstands⟩

/-- What one request makes of the list. -/
theorem answers_steady (h : c.Steady sound text) (q : Request)
    (hs : Holding sound text base made s) :
    Holding sound text base (made ++ c.made [(q, s)]) (c.answers q s).2 := by
  cases q with
  | emit rule =>
    obtain ⟨hok, hholding⟩ := hs.emit h rule
    rw [made_emit, hok]
    exact hholding
  | expand pattern =>
    have hnone : c.made [(.expand pattern, s)] = [] := rfl
    rw [hnone, List.append_nil, answers, expand]
    cases Glob.walk (c.files s.world).list c.style c.depth pattern with
    | none => exact hs
    | some events => exact hs.foldl_reportInput h _
  | probe path =>
    have hnone : c.made [(.probe path, s)] = [] := rfl
    rw [hnone, List.append_nil]
    exact hs
  | load path =>
    have hnone : c.made [(.load path, s)] = [] := rfl
    rw [hnone, List.append_nil, answers, load]
    cases (c.files s.world).read path with
    | error e => exact hs
    | ok source => exact hs.reportInput h path
  | report path =>
    have hnone : c.made [(.report path, s)] = [] := rfl
    rw [hnone, List.append_nil]
    exact hs.reportInput h path

/-- What all requests of an action make of it. -/
theorem run_steady {α : Type} (h : c.Steady sound text) (x : Action α)
    (hs : Holding sound text base made s) :
    Holding sound text base (made ++ c.made (x.trace c.answers s)) (x.run c.answers s).2 := by
  induction x generalizing made s with
  | done a =>
    have hnone : c.made ((Action.done a).trace c.answers s) = [] := rfl
    rw [hnone, List.append_nil]
    exact hs
  | ask q next ih =>
    have hstep := ih (c.answers q s).1 (answers_steady h q hs)
    have htrace : (Action.ask q next).trace c.answers s =
        [(q, s)] ++ (next (c.answers q s).1).trace c.answers (c.answers q s).2 := rfl
    rw [htrace, made_append, ← List.append_assoc]
    exact hstep

/-! ## After a script -/

/-- A script that came to its end leaves a document, and the parent is told of the output, if there
is one. -/
theorem complete_steady (h : c.Steady sound text) (o : Options)
    (hs : Holding sound text base made s) :
    ∃ w', sound w' ∧ text w' = base ++ RuleStream.document made ∧
      c.complete o s = c.giveUp (.complete made.length) s.warnings w' := by
  obtain ⟨stream', w₁, hfinish, hclosed, -, hstands⟩ := hs.stands.finish h.rules
  have htext₁ : text w₁ = base ++ RuleStream.document made := by
    rw [hstands.text, hclosed]
    rfl
  rw [complete, hfinish]
  cases o.outputFile with
  | none =>
    obtain ⟨w₂, hflush, hsound₂, htext₂⟩ := h.flush w₁ hstands.sound
    refine ⟨w₂, hsound₂, htext₂.trans htext₁, ?_⟩
    simp only [hflush]
  | some path =>
    obtain ⟨w₂, hreport, hsound₂, htext₂⟩ := report_steady h (.product path) .productLost
      { s with stream := stream', world := w₁ } hstands.sound
    obtain ⟨w₃, hflush, hsound₃, htext₃⟩ := h.flush w₂ hsound₂
    refine ⟨w₃, hsound₃, (htext₃.trans htext₂).trans htext₁, ?_⟩
    simp only [reportProduct, hreport, hflush]

/-- What a script leaves, however it ended. -/
theorem conclude_steady (h : c.Steady sound text) (o : Options) (outcome : Outcome Unit)
    (hs : Holding sound text base made s) :
    ∃ w' own, sound w' ∧ text w' = base ++ own ∧ Leaves made (c.conclude o outcome s).1 own ∧
      (c.conclude o outcome s).2.2 = (c.deps.drop (c.rules.close w')).2 := by
  have hopen : text s.world = base ++ RuleStream.unfinished made := by
    rw [hs.stands.text, hs.isOpen]
    rfl
  cases outcome with
  | raised v => exact ⟨s.world, _, hs.stands.sound, hopen, .failed v.raised, rfl⟩
  | unfinished => exact ⟨s.world, _, hs.stands.sound, hopen, .unfinished, rfl⟩
  | value u =>
    obtain ⟨w', hsound, htext, hcomplete⟩ := complete_steady h o hs
    refine ⟨w', RuleStream.document made, hsound, htext, ?_, ?_⟩
    · rw [conclude, hcomplete]
      exact .complete
    · rw [conclude, hcomplete]
      rfl

/-- An evaluation leaves the rules that are made in it, and gives up both outputs at the end. -/
theorem evaluateRun_steady (h : c.Steady sound text) (script : Run Unit) (o : Options) {w : ω}
    (hw : sound w) :
    ∃ w' own, sound w' ∧ text w' = text w ++ own ∧
      Leaves (c.rulesMade script w) (c.evaluateRun script o w).1 own ∧
      (c.evaluateRun script o w).2.2 = (c.deps.drop (c.rules.close w')).2 := by
  obtain ⟨w₀, hbegin, hstands⟩ := RuleStream.begin_stands h.rules hw
  have hopened : Holding sound text (text w) [] ⟨w₀, ⟨0, false⟩, []⟩ := ⟨rfl, hstands⟩
  have hran := run_steady h (script (Environment.start c.style)) hopened
  rw [List.nil_append] at hran
  have hmade : c.rulesMade script w =
      c.made ((script (Environment.start c.style)).trace c.answers ⟨w₀, ⟨0, false⟩, []⟩) := by
    rw [rulesMade, asked, hbegin]
  rw [hmade, evaluateRun_of_begin hbegin]
  exact conclude_steady h o _ hran

end

end Channels

end BuildScript
