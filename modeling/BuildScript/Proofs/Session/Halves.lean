import BuildScript.Evaluation
import Mathlib.Tactic.Simps.Basic

/-!
# Worlds of two halves

Where rules and records go to different places, the world is a pair: the files and the rules are
in its first half, and whatever becomes of the records is in the second. What is done to one half
leaves the other as it is.

* `Channels.beside`: such channels;
* `RuleStream.add_onFst`, `RuleStream.finish_onFst`: rules are written to the first half;
* `Sender.send_onSnd`, `Sender.drop_onSnd`: records are sent to the second.
-/

namespace BuildScript

open Files Deps BuildScript.Path

variable {ρ δ : Type}

/-! ## Rules -/

namespace RuleStream

variable (sink : Sink ρ) (s : RuleStream) (w : ρ) (d : δ)

theorem put_onFst (bs : Bytes) :
    put sink.onFst bs (w, d) = ((put sink bs w).1, ((put sink bs w).2, d)) := rfl

theorem begin_onFst :
    begin sink.onFst (w, d) = ((begin sink w).1, ((begin sink w).2, d)) := rfl

theorem add_onFst (rule : Rule) :
    s.add sink.onFst rule (w, d) =
      ((s.add sink rule w).1, (s.add sink rule w).2.1, ((s.add sink rule w).2.2, d)) := by
  have write (w : ρ) : sink.onFst.write rule.encode (w, d) =
      ((sink.write rule.encode w).1, ((sink.write rule.encode w).2, d)) := rfl
  unfold add
  by_cases closed : s.finished
  · simp [closed]
  by_cases first : 0 < s.count
  · rcases between : put sink separator w with ⟨_ | _, w₁⟩
    · simp [closed, first, put_onFst, between]
    · rcases written : sink.write rule.encode w₁ with ⟨_ | _, _⟩ <;>
        simp [closed, first, put_onFst, between, write, written]
  · rcases written : sink.write rule.encode w with ⟨_ | _, _⟩ <;>
      simp [closed, first, write, written]

theorem finish_onFst :
    s.finish sink.onFst (w, d) =
      ((s.finish sink w).1, (s.finish sink w).2.1, ((s.finish sink w).2.2, d)) := by
  have flush (w : ρ) : sink.onFst.flush (w, d) =
      ((sink.flush w).1, ((sink.flush w).2, d)) := rfl
  unfold finish
  by_cases closed : s.finished
  · rcases flushed : sink.flush w with ⟨_ | _, _⟩ <;> simp [closed, flush, flushed]
  by_cases first : 0 < s.count
  · rcases between : put sink lastLineEnd w with ⟨_ | _, w₁⟩
    · simp [closed, first, put_onFst, between]
    rcases ended : put sink closing w₁ with ⟨_ | _, w₂⟩
    · simp [closed, first, put_onFst, between, ended]
    · rcases flushed : sink.flush w₂ with ⟨_ | _, _⟩ <;>
        simp [closed, first, put_onFst, between, ended, flush, flushed]
  · rcases ended : put sink closing w with ⟨_ | _, w₂⟩
    · simp [closed, first, put_onFst, ended]
    · rcases flushed : sink.flush w₂ with ⟨_ | _, _⟩ <;>
        simp [closed, first, put_onFst, ended, flush, flushed]

end RuleStream

/-! ## Records -/

theorem Files.Sink.writeAll_onSnd (sink : Sink δ) (pieces : List Bytes) (w : ρ) (d : δ) :
    sink.onSnd.writeAll pieces (w, d) =
      ((sink.writeAll pieces d).1, (w, (sink.writeAll pieces d).2)) := by
  induction pieces generalizing d with
  | nil => rfl
  | cons bs rest ih =>
    rcases written : sink.write bs d with ⟨_ | _, d₁⟩
    · simp [Sink.writeAll, Sink.onSnd, written]
    · have := ih d₁
      simp only [Sink.writeAll, Sink.onSnd, written] at this ⊢
      exact this

namespace Deps.Sender

/-- A sender to the second half of a world. -/
def onSnd (sender : Sender δ) : Sender (ρ × δ) := ⟨sender.sink.map Sink.onSnd⟩

variable (sender : Sender δ) (w : ρ) (d : δ)

theorem send_onSnd (r : Record) :
    sender.onSnd.send r (w, d) = ((sender.send r d).1, (w, (sender.send r d).2)) := by
  obtain ⟨_ | sink⟩ := sender
  · rfl
  · exact Sink.writeAll_onSnd sink _ w d

theorem flush_onSnd :
    sender.onSnd.flush (w, d) = ((sender.flush d).1, (w, (sender.flush d).2)) := by
  obtain ⟨_ | sink⟩ := sender <;> rfl

theorem flush_onSnd_fst (both : ρ × δ) : (sender.onSnd.flush both).2.1 = both.1 := by
  obtain ⟨w, d⟩ := both
  rw [flush_onSnd]

theorem drop_onSnd :
    sender.onSnd.drop (w, d) = ((sender.drop d).1, (w, (sender.drop d).2)) := by
  obtain ⟨_ | sink⟩ := sender
  · rfl
  · rcases flushed : sink.flush d with ⟨_ | _, _⟩ <;>
      simp [drop, onSnd, Sink.onSnd, flushed]

end Deps.Sender

/-! ## Both -/

/-- Channels with rules that go to the first half of a world, where the files are, too, and with
records that go to the second. -/
@[simps]
def Channels.beside (style : Style) (files : ρ → FileSystem) (rules : Sink ρ)
    (deps : Sender δ) (depth : Nat) : Channels (ρ × δ) where
  style
  files w := files w.1
  rules := rules.onFst
  deps := deps.onSnd
  depth

end BuildScript
