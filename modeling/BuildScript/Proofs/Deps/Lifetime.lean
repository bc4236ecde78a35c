import BuildScript.Deps.Life
import BuildScript.Proofs.Files.Limits
import Mathlib.Data.List.TakeWhile

/-!
# What a sender does in its life

A sender has its output until the output is taken out of it or the sender is dropped. All the time
it does nothing with the output but what it is asked for, and a last flush when it is dropped.

* `Sender.send_after`: one record, on an output that takes a fixed number of bytes;
* `Sender.release_eq`, `Sender.rewrap_eq`: the output is given away without a flush;
* `Life.run`, `Life.getElem?_run`: steps one after the other, and what one of them tells;
* `Life.step_held`, `Life.step_ends`, `Life.run_ended`: steps while the output is there, the one that
  takes it away, and steps behind that;
* `Life.run_attached`, `Life.run_inert`: all steps of a sender with an output and of one without;
* `Life.run_lived`: what is seen of them.
-/

namespace BuildScript.Deps

open Files

variable {ω : Type} {limit : Option Nat} {failFlush : Bool} {text : Bytes} {flushes : Nat}

/-! ## Single records -/

theorem Record.header_ne_nil (r : Record) : r.header ≠ [] := List.cons_ne_nil _ _

/-- A record goes well exactly if the text still fits with it. -/
theorem Sender.send_after (r : Record) :
    (toSink LimitedOutput.sink).send r (.after limit failFlush text flushes) =
      (if Fits limit (text ++ r.encode) then .ok () else .error .writerFull,
        .after limit failFlush (text ++ r.encode) flushes) := by
  have hcode : text ++ r.encode = text ++ r.header ++ r.wireName := (List.append_assoc ..).symm
  simp only [send, toSink, Sink.writeAll, LimitedOutput.sink, hcode]
  by_cases hheader : Fits limit (text ++ r.header)
  · rw [LimitedOutput.write_after_of_fits hheader]
    dsimp only
    by_cases hname : Fits limit (text ++ r.header ++ r.wireName)
    · rw [LimitedOutput.write_after_of_fits hname, if_pos hname]
    · -- an empty name would fit behind its header
      have hsome : r.wireName ≠ [] := by
        intro hnil
        rw [hnil, List.append_nil] at hname
        exact hname hheader
      rw [LimitedOutput.write_after_of_not_fits hsome hname, if_neg hname]
  · have hwhole : ¬ Fits limit (text ++ r.header ++ r.wireName) := fun h => hheader h.of_append
    rw [LimitedOutput.write_after_of_not_fits r.header_ne_nil hheader, if_neg hwhole,
      LimitedOutput.after_append_of_full hheader]

/-! ## Giving the output away -/

/-- The drop of what is left of a sender behind its output does nothing. -/
@[simp]
theorem Sender.release_eq (s : Sender ω) (w : ω) : s.release w = (s.sink, [], w) := rfl

/-- Around the output that was taken out of it a sender is the same again. -/
@[simp]
theorem Sender.rewrap_eq (s : Sender ω) (w : ω) : s.rewrap w = (s, [], w) := by
  rw [rewrap, release_eq]
  obtain ⟨_ | sink⟩ := s <;> rfl

/-! ## Steps -/

namespace Step

/-- The output is taken out, or the sender dropped. -/
def ends : Step → Bool
  | release | drop => true
  | _ => false

def record? : Step → Option Record
  | send r => some r
  | _ => none

/-- The steps that are made while the output is there. -/
def held (steps : List Step) : List Step := steps.takeWhile fun s => !s.ends

/-- The encodings of all records that are sent while the output is there. -/
def written (steps : List Step) : Bytes := ((held steps).filterMap record?).flatMap Record.encode

theorem held_cons_of_not_ends {s : Step} (h : s.ends = false) (steps : List Step) :
    held (s :: steps) = s :: held steps := by
  rw [held, List.takeWhile_cons, h]
  rfl

theorem held_cons_of_ends {s : Step} (h : s.ends = true) (steps : List Step) :
    held (s :: steps) = [] := by
  rw [held, List.takeWhile_cons, h]
  rfl

theorem written_cons_of_not_ends {s : Step} (h : s.ends = false) (steps : List Step) :
    written (s :: steps) = s.record?.toList.flatMap Record.encode ++ written steps := by
  rw [written, held_cons_of_not_ends h]
  cases hr : s.record? with
  | none => simp [written, hr]
  | some r => simp [written, hr]

end Step

namespace Life

/-- Steps one after the other: what they tell, and the sender and the world after them. -/
def run : List Step → Life ω → ω → List Outcome × Life ω × ω
  | [], l, w => ([], l, w)
  | s :: steps, l, w =>
    let q := l.step s w
    let more := run steps q.2.1 q.2.2
    (q.1 :: more.1, more.2)

/-- What a step tells depends on the steps before it alone. -/
theorem getElem?_run (before after : List Step) (s : Step) (l : Life ω) (w : ω) :
    (run (before ++ s :: after) l w).1[before.length]? =
      some ((run before l w).2.1.step s (run before l w).2.2).1 := by
  induction before generalizing l w with
  | nil => rfl
  | cons first before ih =>
    rw [List.cons_append, run, List.length_cons, List.getElem?_cons_succ]
    exact ih _ _

/-- A sender that has its output. -/
abbrev attached (warnings : List Warning) : Life LimitedOutput :=
  ⟨some (.toSink LimitedOutput.sink), warnings⟩

theorem step_held {s : Step} (h : s.ends = false) (warnings : List Warning) :
    ((attached warnings).step s (.after limit failFlush text flushes)).2 =
      (attached warnings, .after limit failFlush (text ++ s.record?.toList.flatMap Record.encode)
        (flushes + [s].count .flush)) := by
  cases s with
  | send r =>
    simp only [step, Sender.send_after, Step.record?, Option.toList_some, List.flatMap_singleton]
    rfl
  | flush => simp [step, Sender.flush, Sender.toSink, LimitedOutput.sink, LimitedOutput.flush,
      LimitedOutput.after, Step.record?]
  | rewrap => simp [step, Step.record?]
  | release | drop => cases h

theorem run_ended (steps : List Step) {l : Life ω} (h : l.sender = none) (w : ω) :
    (run steps l w).2 = (l, w) := by
  induction steps with
  | nil => rfl
  | cons s steps ih =>
    have hstep : (l.step s w).2 = (l, w) := by
      obtain ⟨_ | sender, warnings⟩ := l
      · cases s <;> rfl
      · cases h
    rw [run]
    simp only [hstep]
    exact ih

/-- The step that takes the output away flushes it if the sender is dropped. -/
theorem step_ends {s : Step} (h : s.ends = true) (warnings : List Warning) :
    ∃ l : Life LimitedOutput, l.sender = none ∧
      ((attached warnings).step s (.after limit failFlush text flushes)).2 =
        (l, .after limit failFlush text (flushes + if s = .drop then 1 else 0)) := by
  cases s with
  | release => exact ⟨⟨none, warnings⟩, rfl, by simp [step]⟩
  | drop => cases failFlush <;> exact ⟨_, rfl, rfl⟩
  | send | flush | rewrap => cases h

/-- What has become of a sender and its output after some steps. -/
theorem run_attached (steps : List Step) (warnings : List Warning) :
    ∃ l : Life LimitedOutput,
      (run steps (attached warnings) (.after limit failFlush text flushes)).2 =
        (l, .after limit failFlush (text ++ Step.written steps)
          (flushes + ((Step.held steps).count .flush +
            if steps.find? Step.ends = some .drop then 1 else 0))) ∧
      (steps.find? Step.ends = none → l = attached warnings) ∧
      ∀ s, steps.find? Step.ends = some s → l.sender = none := by
  induction steps generalizing text flushes with
  | nil => exact ⟨attached warnings, by simp [run, Step.written, Step.held], fun _ => rfl, nofun⟩
  | cons s steps ih =>
    cases hends : s.ends with
    | false =>
      obtain ⟨l, hrun, hl⟩ := @ih (text ++ s.record?.toList.flatMap Record.encode)
        (flushes + [s].count .flush)
      have hfind : (s :: steps).find? Step.ends = steps.find? Step.ends := by
        rw [List.find?_cons, hends]
      have hcount : (s :: Step.held steps).count .flush =
          [s].count .flush + (Step.held steps).count .flush := by
        rw [← List.singleton_append, List.count_append]
      refine ⟨l, ?_, by rwa [hfind]⟩
      rw [run, hfind, Step.held_cons_of_not_ends hends, Step.written_cons_of_not_ends hends, hcount]
      simp only [step_held hends, hrun, List.append_assoc, Nat.add_assoc]
    | true =>
      obtain ⟨l, hgone, hstep⟩ := @step_ends limit failFlush text flushes s hends warnings
      have hfind : (s :: steps).find? Step.ends = some s := by
        rw [List.find?_cons, hends]
      refine ⟨l, ?_, fun hnone => ?_, fun _ _ => hgone⟩
      · rw [run, hfind, Step.held_cons_of_ends hends, Step.written, Step.held_cons_of_ends hends]
        simp [hstep, run_ended steps hgone]
      · rw [hfind] at hnone
        cases hnone

/-- A sender that never had an output, or that is gone. -/
def Inert (l : Life ω) : Prop := l.warnings = [] ∧ (l.sender = none ∨ l.sender = some .inert)

theorem step_inert (s : Step) {l : Life ω} (hl : l.Inert) (w : ω) :
    ∃ outcome l', l.step s w = (outcome, l', w) ∧ l'.Inert ∧
      ∀ result, outcome = .done result → result = .ok () := by
  obtain ⟨sender, warnings⟩ := l
  obtain ⟨rfl, rfl | rfl⟩ : warnings = [] ∧ (sender = none ∨ sender = some .inert) := hl
  · cases s <;> exact ⟨_, _, rfl, ⟨rfl, .inl rfl⟩, nofun⟩
  · cases s with
    | send | flush =>
      exact ⟨_, _, rfl, ⟨rfl, .inr rfl⟩, fun _ h => (Outcome.done.inj h).symm⟩
    | rewrap => exact ⟨_, _, rfl, ⟨rfl, .inr rfl⟩, nofun⟩
    | release | drop => exact ⟨_, _, rfl, ⟨rfl, .inl rfl⟩, nofun⟩

theorem finish_inert {l : Life ω} (hl : l.Inert) (w : ω) : l.finish w = (⟨none, []⟩, w) := by
  obtain ⟨sender, warnings⟩ := l
  obtain ⟨rfl, rfl | rfl⟩ : warnings = [] ∧ (sender = none ∨ sender = some .inert) := hl <;> rfl

/-- A sender without an output does nothing, and that goes well. -/
theorem run_inert (steps : List Step) {l : Life ω} (hl : l.Inert) (w : ω) :
    ∃ outcomes l', run steps l w = (outcomes, l', w) ∧ l'.Inert ∧
      ∀ result, Outcome.done result ∈ outcomes → result = .ok () := by
  induction steps generalizing l with
  | nil => exact ⟨[], l, rfl, hl, nofun⟩
  | cons s steps ih =>
    obtain ⟨outcome, l₁, hstep, hl₁, hok⟩ := step_inert s hl w
    obtain ⟨outcomes, l', hrun, hl', hall⟩ := ih hl₁
    refine ⟨outcome :: outcomes, l', by simp only [run, hstep, hrun], hl', ?_⟩
    intro result hmem
    rcases List.mem_cons.1 hmem with heq | hmem
    · exact hok result heq.symm
    · exact hall result hmem

/-! ## Whole lives -/

/-- What is seen of the steps of a sender whose output takes `limit` bytes: what they tell, and the
output behind them and when the sender is dropped at the end, if it is still there. -/
structure Lived (limit : Nat) (steps : List Step) (outcomes : List Outcome)
    (o last : LimitedOutput) : Prop where
  /-- The records that were sent while the output was there are stored up to the limit. -/
  stored : o.stored = (Step.written steps).take limit
  /-- A record is sent if all of them up to it are within the limit. -/
  sends : ∀ before r behind, steps = before ++ .send r :: behind →
    before.find? Step.ends = none → outcomes[before.length]? = some (.done
      (if (Step.written (before ++ [.send r])).length ≤ limit then .ok () else .error .writerFull))
  /-- When the output is away there is nothing to send with. -/
  gone : ∀ before r behind, steps = before ++ .send r :: behind →
    before.find? Step.ends ≠ none → outcomes[before.length]? = some .gone
  /-- The output was flushed as often as that was asked for while it was there, and once when the
  sender was dropped with it. -/
  flushes : o.flushes = (Step.held steps).count .flush +
    if steps.find? Step.ends = some .drop then 1 else 0
  /-- The end adds a flush if the output is still there, and nothing else. -/
  lastStored : last.stored = o.stored
  lastFlushes : last.flushes = (Step.held steps).count .flush +
    if steps.find? Step.ends = some .release then 0 else 1

/-- The end drops a sender that is still there, with one more flush. -/
theorem finish_attached (warnings : List Warning) :
    ((attached warnings).finish (.after limit failFlush text flushes)).2 =
      .after limit failFlush text (flushes + 1) := by
  cases failFlush <;> rfl

theorem finish_ended {l : Life ω} (h : l.sender = none) (w : ω) : l.finish w = (l, w) := by
  rw [finish, h]

theorem step_send_ended {l : Life ω} (h : l.sender = none) (r : Record) (w : ω) :
    (l.step (.send r) w).1 = .gone := by
  obtain ⟨_ | sender, warnings⟩ := l
  · rfl
  · cases h

theorem written_concat {before : List Step} (h : before.find? Step.ends = none) (r : Record) :
    Step.written (before ++ [.send r]) = Step.written before ++ r.encode := by
  have hall : ∀ s ∈ before, (!s.ends) = true := by simpa using h
  rw [Step.written, Step.held, List.takeWhile_append_of_pos hall, Step.written, Step.held,
    List.takeWhile_eq_self_iff.2 hall]
  simp [Step.ends, Step.record?]

/-- Whatever is done with a sender, on an output that takes a fixed number of bytes the records sent
are stored up to the limit and only these, each send tells whether its record was stored as a whole,
and there is no flush but those asked for and the one of a sender that is dropped with its output. A
sender without an output never fails. -/
theorem run_lived (limit : Nat) (failFlush : Bool) (steps : List Step) :
    (∃ outcomes l o, run steps (begin (.toSink LimitedOutput.sink))
        (.empty (some limit) failFlush) = (outcomes, l, o) ∧
      Lived limit steps outcomes o (l.finish o).2) ∧
    ∀ (ω : Type) (w : ω), ∃ outcomes l, run steps (begin (.inert : Sender ω)) w =
      (outcomes, l, w) ∧ l.finish w = (⟨none, []⟩, w) ∧
      ∀ result, Outcome.done result ∈ outcomes → result = .ok () := by
  refine ⟨?_, fun ω w => ?_⟩
  rotate_left
  · have hl : (begin (.inert : Sender ω)).Inert := ⟨rfl, .inr rfl⟩
    obtain ⟨outcomes, l, hrun, hl, hall⟩ := run_inert steps hl w
    exact ⟨outcomes, l, hrun, finish_inert hl w, hall⟩
  rw [LimitedOutput.empty_eq_after]
  have hstate := fun steps => @run_attached (some limit) failFlush [] 0 steps []
  simp only [List.nil_append, Nat.zero_add] at hstate
  obtain ⟨l, hrun, hheld, hgone⟩ := hstate steps
  refine ⟨_, l, _, Prod.ext rfl hrun, ⟨rfl, ?_, ?_, rfl, ?_, ?_⟩⟩
  · rintro before r behind rfl hnone
    obtain ⟨l₁, hbefore, hheld₁, -⟩ := hstate before
    rw [hheld₁ hnone] at hbefore
    rw [getElem?_run, begin, hbefore, written_concat hnone]
    simp only [step, Sender.send_after, fits_some]
  · rintro before r behind rfl hsome
    obtain ⟨l₁, hbefore, -, hgone₁⟩ := hstate before
    obtain ⟨s, hs⟩ := Option.ne_none_iff_exists'.1 hsome
    rw [getElem?_run, begin, hbefore]
    exact congrArg some (step_send_ended (hgone₁ s hs) r _)
  · cases hfind : steps.find? Step.ends with
    | none =>
      rw [hheld hfind, finish_attached]
      rfl
    | some s => rw [finish_ended (hgone s hfind)]
  · cases hfind : steps.find? Step.ends with
    | none =>
      rw [hheld hfind, finish_attached]
      rfl
    | some s =>
      rw [finish_ended (hgone s hfind)]
      have hends := List.find?_some hfind
      cases s with
      | release | drop => rfl
      | send | flush | rewrap => cases hends

end Life

end BuildScript.Deps
