import BuildScript.Proofs.Session.Halves

/-!
# The parent has no say

A session that tells a parent goes like one that tells nobody: the records and their failures
stay in the second half of the world, where nothing that a script sees comes from.

* `Channels.quiet`: the same channels without a parent;
* `Session.erase`: a session as it is without the second half of its world;
* `Channels.answers_erase`, `Channels.perform_erase`: one request, and a step of a script;
* `Channels.evaluateRun_erase`: a whole evaluation;
* `Channels.ending_and_rules_alike`: two evaluations with different parents.
-/

namespace BuildScript

open Files Deps Script BuildScript.Path

/-- Two parties whose answers agree, when one of them remembers only a part of what the other
does. -/
theorem Script.Action.run_map {α σ τ : Type} {answers : Answers σ} {fewer : Answers τ}
    {f : σ → τ} (agree : ∀ q s, fewer q (f s) = ((answers q s).1, f (answers q s).2))
    (x : Action α) (s : σ) :
    x.run fewer (f s) = ((x.run answers s).1, f (x.run answers s).2) := by
  induction x generalizing s with
  | done a => rfl
  | ask q next ih =>
    rw [run_ask, agree, run_ask]
    exact ih _ _

variable {ρ δ : Type}

/-- A session without the second half of its world, and without warnings. -/
def Session.erase (s : Session (ρ × δ)) : Session ρ := ⟨s.world.1, s.stream, []⟩

namespace Channels

/-- Channels without a parent. -/
@[simps]
def quiet (style : Style) (files : ρ → FileSystem) (rules : Sink ρ) (depth : Nat) :
    Channels ρ where
  style
  files
  rules
  deps := .inert
  depth

variable {style : Style} {files : ρ → FileSystem} {rules : Sink ρ} {depth : Nat}
variable {sender : Sender δ}

/-! ## Requests -/

theorem report_erase (r : Record) (warning : Warning) (s : Session (ρ × δ)) :
    ((beside style files rules sender depth).report r warning s).erase = s.erase := by
  obtain ⟨⟨w, d⟩, stream, warnings⟩ := s
  rcases sent : sender.send r d with ⟨_ | _, d'⟩ <;>
    simp [report, beside, Sender.send_onSnd, sent, Session.erase]

theorem foldl_reportInput_erase (names : List Bytes) (s : Session (ρ × δ)) :
    (names.foldl (fun s dir => (beside style files rules sender depth).reportInput dir s)
      s).erase = s.erase := by
  induction names generalizing s with
  | nil => rfl
  | cons name names ih =>
    rw [List.foldl_cons, ih]
    exact report_erase ..

theorem foldl_reportInput_quiet (names : List Bytes) (s : Session ρ) :
    names.foldl (fun s dir => (quiet style files rules depth).reportInput dir s) s = s := by
  induction names with
  | nil => rfl
  | cons name names ih => exact ih

/-- A reply does not depend on the parent, and neither does what a session becomes. -/
theorem answers_erase (q : Request) (s : Session (ρ × δ)) :
    (quiet style files rules depth).answers q s.erase =
      (((beside style files rules sender depth).answers q s).1,
        ((beside style files rules sender depth).answers q s).2.erase) := by
  have world : s.erase.world = s.world.1 := rfl
  cases q with
  | expand pattern =>
    simp only [answers, expand, quiet_files, quiet_style, quiet_depth, beside_files, beside_style,
      beside_depth, world]
    cases Glob.walk (files s.world.1).list style depth pattern with
    | none => rfl
    | some events => simp only [foldl_reportInput_erase, foldl_reportInput_quiet]
  | probe path => rfl
  | load path =>
    simp only [answers, load, quiet_files, beside_files, world]
    cases (files s.world.1).read path with
    | error e => rfl
    | ok source => exact Prod.ext rfl (report_erase ..).symm
  | emit rule =>
    obtain ⟨⟨w, d⟩, stream, warnings⟩ := s
    simp only [answers, emit, beside_rules, quiet_rules, Session.erase, RuleStream.add_onFst]
  | report path => exact Prod.ext rfl (report_erase ..).symm

/-- A step of a script. -/
theorem perform_erase {α : Type} (x : Run α) (store : Store) (s : Session (ρ × δ)) :
    (quiet style files rules depth).perform x store s.erase =
      (((beside style files rules sender depth).perform x store s).1,
        ((beside style files rules sender depth).perform x store s).2.erase) :=
  Action.run_map answers_erase (x store) s

/-! ## Evaluations -/

/-- What an evaluation comes to without the second half of its world, and without warnings. -/
def eraseResult (r : Ending × List Warning × (ρ × δ)) : Ending × List Warning × ρ :=
  (r.1, [], r.2.2.1)

theorem giveUp_erase (ending : Ending) (warnings : List Warning) {w : ρ} {both : ρ × δ}
    (first : both.1 = w) :
    (quiet style files rules depth).giveUp ending [] w =
      eraseResult ((beside style files rules sender depth).giveUp ending warnings both) := by
  obtain ⟨w, d⟩ := both
  obtain rfl := first
  have closed : rules.onFst.close (w, d) = (rules.close w, d) := rfl
  simp only [giveUp, eraseResult, beside_rules, beside_deps, quiet_rules, closed,
    Sender.drop_onSnd]
  rfl

theorem complete_erase (o : Options) (s : Session (ρ × δ)) :
    (quiet style files rules depth).complete o s.erase =
      eraseResult ((beside style files rules sender depth).complete o s) := by
  obtain ⟨⟨w, d⟩, stream, warnings⟩ := s
  simp only [complete, Session.erase, quiet_rules, beside_rules, RuleStream.finish_onFst]
  rcases stream.finish rules w with ⟨_ | count, stream', w'⟩
  · exact giveUp_erase _ _ rfl
  cases o.outputFile with
  | none => exact giveUp_erase _ _ (Sender.flush_onSnd_fst sender (w', d))
  | some path =>
    have told : ((beside style files rules sender depth).reportProduct path
        ⟨(w', d), stream', warnings⟩).world.1 = w' := congrArg Session.world (report_erase ..)
    exact giveUp_erase _ _ ((Sender.flush_onSnd_fst sender _).trans told)

theorem conclude_erase (o : Options) (outcome : Outcome Unit) (s : Session (ρ × δ)) :
    (quiet style files rules depth).conclude o outcome s.erase =
      eraseResult ((beside style files rules sender depth).conclude o outcome s) := by
  cases outcome with
  | value a => exact complete_erase o s
  | raised v => exact giveUp_erase _ _ rfl
  | unfinished => exact giveUp_erase _ _ rfl

theorem evaluateRun_erase (x : Run Unit) (o : Options) (w : ρ) (d : δ) :
    (quiet style files rules depth).evaluateRun x o w =
      eraseResult ((beside style files rules sender depth).evaluateRun x o (w, d)) := by
  simp only [evaluateRun, quiet_rules, beside_rules, RuleStream.begin_onFst]
  rcases RuleStream.begin rules w with ⟨_ | stream, w'⟩
  · exact giveUp_erase _ _ rfl
  · let s : Session (ρ × δ) := ⟨(w', d), stream, []⟩
    have run : (quiet style files rules depth).perform x (Environment.start style) s.erase =
        (((beside style files rules sender depth).perform x (Environment.start style) s).1,
          ((beside style files rules sender depth).perform x (Environment.start style) s).2.erase) :=
      perform_erase x _ s
    have same : (⟨w', stream, []⟩ : Session ρ) = s.erase := rfl
    simp only [quiet_style, beside_style]
    rw [same, run]
    exact conclude_erase o _ _

/-- Two parents, of any kind and in any state. Whatever they do with the records, a script or any
other steps end alike, and the files and the rules are left alike. -/
theorem ending_and_rules_alike {δ₁ δ₂ : Type} (style : Style) (files : ρ → FileSystem)
    (rules : Sink ρ) (depth : Nat) (one : Sender δ₁) (other : Sender δ₂) (o : Options) (w : ρ)
    (d₁ : δ₁) (d₂ : δ₂) :
    (∀ steps source,
      let r₁ := (beside style files rules one depth).evaluate steps o source (w, d₁)
      let r₂ := (beside style files rules other depth).evaluate steps o source (w, d₂)
      r₁.1 = r₂.1 ∧ r₁.2.2.1 = r₂.2.2.1) ∧
    ∀ (x : Run Unit) (store : Store) (stream : RuleStream),
      let r₁ := (beside style files rules one depth).perform x store ⟨(w, d₁), stream, []⟩
      let r₂ := (beside style files rules other depth).perform x store ⟨(w, d₂), stream, []⟩
      let c₁ := (beside style files rules one depth).conclude o r₁.1.1 r₁.2
      let c₂ := (beside style files rules other depth).conclude o r₂.1.1 r₂.2
      r₁.1 = r₂.1 ∧ c₁.1 = c₂.1 ∧ c₁.2.2.1 = c₂.2.2.1 := by
  constructor
  · intro steps source r₁ r₂
    have same : eraseResult r₁ = eraseResult r₂ :=
      (evaluateRun_erase (o.program steps source) o w d₁).symm.trans
        (evaluateRun_erase (o.program steps source) o w d₂)
    exact ⟨congrArg (·.1) same, congrArg (·.2.2) same⟩
  · intro x store stream r₁ r₂ c₁ c₂
    have run : (r₁.1, r₁.2.erase) = (r₂.1, r₂.2.erase) :=
      (perform_erase x store ⟨(w, d₁), stream, []⟩).symm.trans
        (perform_erase x store ⟨(w, d₂), stream, []⟩)
    obtain ⟨outcome, session⟩ := Prod.mk.inj run
    have same : eraseResult c₁ = eraseResult c₂ := by
      calc eraseResult c₁
          = (quiet style files rules depth).conclude o r₁.1.1 r₁.2.erase :=
            (conclude_erase o r₁.1.1 r₁.2).symm
        _ = (quiet style files rules depth).conclude o r₂.1.1 r₂.2.erase := by
            rw [outcome, session]
        _ = eraseResult c₂ := conclude_erase o r₂.1.1 r₂.2
    exact ⟨outcome, congrArg (·.1) same, congrArg (·.2.2) same⟩

end Channels

end BuildScript
