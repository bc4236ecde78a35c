import BuildScript.Proofs.Rules.Torn

/-!
# Rules on an output that becomes full

An output that takes a fixed number of bytes stores all that fits, and when something does not fit
it is full and takes nothing more. A rule that is refused is the last thing that was tried, even
where whoever makes rules goes on: the list is never closed behind it.

* `Sink.FillsUp`: such outputs, of which one that has no limit is a case;
* `Filling`: the rules accepted stand in the list, or the output is full;
* `Filling.add`, `Filling.finish`: what one call makes of that.
-/

namespace BuildScript

open Files

/-- An output whose writes store all their bytes until it is full. -/
structure Files.Sink.FillsUp {ω : Type} (sink : Sink ω) (sound full : ω → Prop)
    (text : ω → Bytes) : Prop where
  write : ∀ bs w, sound w →
    (∃ w', sink.write bs w = (.ok (), w') ∧ sound w' ∧ text w' = text w ++ bs ∧
      (full w → bs = [] ∧ full w')) ∨
    ∃ e w', sink.write bs w = (.error e, w') ∧ sound w' ∧ full w'
  flush : ∀ w, sound w → sound (sink.flush w).2 ∧ text (sink.flush w).2 = text w
  close : ∀ w, sound w → text (sink.close w) = text w

def Files.LimitedOutput.Full (o : LimitedOutput) : Prop :=
  ∃ limit, o.limit = some limit ∧ limit ≤ o.stored.length

theorem Files.LimitedOutput.fillsUp :
    LimitedOutput.sink.FillsUp (fun _ => True) LimitedOutput.Full LimitedOutput.stored where
  write := by
    intro bs o _
    by_cases fits : o.room bs.length = bs.length
    · refine .inl ⟨{ o with stored := o.stored ++ bs }, ?_, trivial, rfl, ?_⟩
      · simp [sink, write, fits]
      · rintro ⟨limit, hlimit, hfull⟩
        have hroom : o.room bs.length = min bs.length (limit - o.stored.length) := by
          rw [room, hlimit]
        have hnil : bs = [] := by
          apply List.eq_nil_of_length_eq_zero
          omega
        subst hnil
        exact ⟨rfl, limit, hlimit, by rw [List.append_nil]; exact hfull⟩
    · refine .inr ⟨.writerFull, { o with stored := o.stored ++ bs.take (o.room bs.length) }, ?_,
        trivial, ?_⟩
      · simp [sink, write, fits]
      · obtain ⟨limit, hlimit⟩ : ∃ limit, o.limit = some limit := by
          cases hlimit : o.limit with
          | none => exact absurd (by rw [room, hlimit]) fits
          | some limit => exact ⟨limit, rfl⟩
        have hroom : o.room bs.length = min bs.length (limit - o.stored.length) := by
          rw [room, hlimit]
        refine ⟨limit, hlimit, ?_⟩
        simp only [List.length_append, List.length_take]
        omega
  flush _ _ := ⟨trivial, rfl⟩
  close _ _ := rfl

namespace RuleStream

variable {ω : Type} {sink : Sink ω} {sound full : ω → Prop} {text : ω → Bytes}

/-- The list is open, and the rules stand in it if the output is not full. -/
structure Filling (sound full : ω → Prop) (text : ω → Bytes) (base : Bytes) (rules : List Rule)
    (s : RuleStream) (w : ω) : Prop where
  isOpen : s.finished = false
  isSound : sound w
  stands : full w ∨ Stands sound text base rules s w

theorem lead_eq {s : RuleStream} {rules : List Rule} (hcount : s.count = rules.length)
    (bs : Bytes) : s.lead bs = if rules.isEmpty then [] else bs := by
  rw [lead, hcount]
  cases rules with
  | nil => rfl
  | cons first rules => exact if_pos (Nat.succ_pos _)

theorem begin_filling (h : sink.FillsUp sound full text) {w w₀ : ω} {s₀ : RuleStream}
    (hw : sound w) (hbegin : begin sink w = (.ok s₀, w₀)) :
    Filling sound full text (text w) [] s₀ w₀ := by
  rw [begin, put] at hbegin
  rcases h.write opening w hw with ⟨w', hwrite, hsound, htext, -⟩ | ⟨e, w', hwrite, -, -⟩
  · rw [hwrite] at hbegin
    cases hbegin
    refine ⟨rfl, hsound, .inr ⟨hsound, rfl, ?_⟩⟩
    rw [htext]
    simp [unfinished]
  · rw [hwrite] at hbegin
    cases hbegin

section
variable (h : sink.FillsUp sound full text) (s : RuleStream) {w : ω} (hw : sound w)
include h hw

theorem put_lead_filling (bs : Bytes) :
    (∃ w', (if 0 < s.count then put sink bs w else (.ok (), w)) = (.ok (), w') ∧ sound w' ∧
      text w' = text w ++ s.lead bs ∧ (full w → full w')) ∨
    ∃ e w', (if 0 < s.count then put sink bs w else (.ok (), w)) = (.error e, w') ∧ sound w' ∧
      full w' := by
  by_cases hsome : 0 < s.count
  · simp only [lead, if_pos hsome]
    rcases h.write bs w hw with ⟨w', hwrite, hsound, htext, hfull⟩ | ⟨e, w', hwrite, hend⟩
    · exact .inl ⟨w', put_of_ok hwrite, hsound, htext, fun hw => (hfull hw).2⟩
    · exact .inr ⟨.io e, w', put_of_error hwrite, hend⟩
  · simp only [lead, if_neg hsome]
    exact .inl ⟨w, rfl, hw, (List.append_nil _).symm, id⟩

theorem add_filling (hopen : s.finished = false) (rule : Rule) :
    (∃ w', s.add sink rule w = (.ok (), { s with count := s.count + 1 }, w') ∧ sound w' ∧
      text w' = text w ++ s.whole (.add rule) ∧ ¬ full w) ∨
    ∃ e w', s.add sink rule w = (.error e, s, w') ∧ sound w' ∧ full w' := by
  rcases put_lead_filling h s hw separator with
    ⟨w₁, hput, hsound₁, htext₁, hfull₁⟩ | ⟨e, w₁, hput, hend⟩
  · rcases h.write rule.encode w₁ hsound₁ with
      ⟨w₂, hwrite, hsound₂, htext₂, hfull₂⟩ | ⟨e, w₂, hwrite, hend⟩
    · refine .inl ⟨w₂, ?_, hsound₂, ?_, ?_⟩
      · simp only [add, hopen, Bool.false_eq_true, if_false, hput, hwrite]
      · rw [htext₂, htext₁, whole, List.append_assoc]
      · intro hfull
        exact absurd (hfull₂ (hfull₁ hfull)).1 (List.cons_ne_nil _ _)
    · refine .inr ⟨.encode e, w₂, ?_, hend⟩
      simp only [add, hopen, Bool.false_eq_true, if_false, hput, hwrite]
  · refine .inr ⟨e, w₁, ?_, hend⟩
    simp only [add, hopen, Bool.false_eq_true, if_false, hput]

theorem finish_filling (hopen : s.finished = false) :
    (∃ result w', s.finish sink w = (result, { s with finished := true }, w') ∧
      (∀ n, result = .ok n → n = s.count) ∧ sound w' ∧
      text w' = text w ++ s.whole .finish ∧ ¬ full w) ∨
    ∃ e w', s.finish sink w = (.error e, s, w') ∧ sound w' ∧ full w' := by
  rcases put_lead_filling h s hw lastLineEnd with
    ⟨w₁, hput, hsound₁, htext₁, hfull₁⟩ | ⟨e, w₁, hput, hend⟩
  · rcases h.write closing w₁ hsound₁ with
      ⟨w₂, hwrite, hsound₂, htext₂, hfull₂⟩ | ⟨e, w₂, hwrite, hend⟩
    · have hclosing := put_of_ok hwrite
      obtain ⟨hsound₃, htext₃⟩ := h.flush w₂ hsound₂
      have hwhole : text (sink.flush w₂).2 = text w ++ s.whole .finish := by
        rw [htext₃, htext₂, htext₁, whole, List.append_assoc]
      have hfull : ¬ full w := by
        intro hfull
        exact absurd (hfull₂ (hfull₁ hfull)).1 (List.cons_ne_nil _ _)
      rcases hflush : sink.flush w₂ with ⟨e | u, w₃⟩
      · rw [hflush] at hsound₃ hwhole
        refine .inl ⟨.error (.io e), w₃, ?_, by simp, hsound₃, hwhole, hfull⟩
        simp only [finish, hopen, Bool.false_eq_true, if_false, hput, hclosing, hflush]
      · rw [hflush] at hsound₃ hwhole
        refine .inl ⟨.ok s.count, w₃, ?_, ?_, hsound₃, hwhole, hfull⟩
        · simp only [finish, hopen, Bool.false_eq_true, if_false, hput, hclosing, hflush]
        · intro n hn
          cases hn
          rfl
    · have hclosing := put_of_error hwrite
      refine .inr ⟨.io e, w₂, ?_, hend⟩
      simp only [finish, hopen, Bool.false_eq_true, if_false, hput, hclosing]
  · refine .inr ⟨e, w₁, ?_, hend⟩
    simp only [finish, hopen, Bool.false_eq_true, if_false, hput]

end

namespace Filling

variable {base : Bytes} {rules : List Rule} {s : RuleStream} {w : ω}

/-- A rule is accepted and stands in the list, or the output is full. -/
theorem add (h : sink.FillsUp sound full text) (hs : Filling sound full text base rules s w)
    (rule : Rule) :
    ∃ result s' w', s.add sink rule w = (result, s', w') ∧
      Filling sound full text base (rules ++ (if result.isOk then [rule] else [])) s' w' := by
  rcases add_filling h s hs.isSound hs.isOpen rule with
    ⟨w', hadd, hsound, htext, hroom⟩ | ⟨e, w', hadd, hsound, hfull⟩
  · have hstands := hs.stands.resolve_left hroom
    refine ⟨.ok (), _, w', hadd, hs.isOpen, hsound, .inr ⟨hsound, ?_, ?_⟩⟩
    · simp [hstands.count, Except.isOk, Except.toBool]
    · rw [htext, hstands.text, whole, lead_eq hstands.count]
      simp [hs.isOpen, unfinished_concat, Except.isOk, Except.toBool]
  · exact ⟨.error e, s, w', hadd, hs.isOpen, hsound, .inl hfull⟩

/-- A list that is finished holds the rules. -/
theorem finish (h : sink.FillsUp sound full text) (hs : Filling sound full text base rules s w) :
    ∃ result s' w', s.finish sink w = (result, s', w') ∧ sound w' ∧
      ∀ n, result = .ok n → n = rules.length ∧ text w' = base ++ document rules := by
  rcases finish_filling h s hs.isSound hs.isOpen with
    ⟨result, w', hfinish, hcount, hsound, htext, hroom⟩ | ⟨e, w', hfinish, hsound, -⟩
  · have hstands := hs.stands.resolve_left hroom
    refine ⟨result, _, w', hfinish, hsound, ?_⟩
    intro n hn
    refine ⟨by rw [hcount n hn, hstands.count], ?_⟩
    rw [htext, hstands.text, whole, lead_eq hstands.count]
    simp [hs.isOpen, document]
  · exact ⟨.error e, s, w', hfinish, hsound, by simp⟩

end Filling

end RuleStream

end BuildScript
