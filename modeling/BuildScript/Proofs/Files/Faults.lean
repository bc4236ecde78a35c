import BuildScript.Files.Output

/-!
# Outputs that fail

A write that fails may have stored the first of its bytes. What comes after it depends on the
output: one that is full stores nothing more, while another may store all that follows.

* `Sink.StoresPart`: what all outputs have in common;
* `FaultyOutput`: an output in memory whose faults are planned, write by write.
-/

namespace BuildScript.Files

/-- An output whose writes store all their bytes, or fail and store only the first of them. -/
structure Sink.StoresPart {ω : Type} (sink : Sink ω) (text : ω → Bytes) : Prop where
  write : ∀ bs w,
    (∃ w', sink.write bs w = (.ok (), w') ∧ text w' = text w ++ bs) ∨
    ∃ e w' k, sink.write bs w = (.error e, w') ∧ k < bs.length ∧ text w' = text w ++ bs.take k
  flush : ∀ w, text (sink.flush w).2 = text w

theorem LimitedOutput.storesPart : LimitedOutput.sink.StoresPart LimitedOutput.stored where
  write := by
    intro bs o
    have hroom : o.room bs.length ≤ bs.length := by
      unfold room
      split
      · exact Nat.le_refl _
      · exact Nat.min_le_left _ _
    by_cases fits : o.room bs.length = bs.length
    · refine .inl ⟨{ o with stored := o.stored ++ bs }, ?_, rfl⟩
      simp [sink, write, fits]
    · refine .inr ⟨.writerFull, { o with stored := o.stored ++ bs.take (o.room bs.length) },
        o.room bs.length, ?_, by omega, rfl⟩
      simp [sink, write, fits]
  flush _ := rfl

/-! ## Planned faults -/

/-- An output in memory with a fault planned for some of its next writes: how many bytes are
stored before the write fails. Behind the plan there are no more faults. -/
structure FaultyOutput where
  faults : List (Option Nat)
  stored : Bytes
  deriving DecidableEq

namespace FaultyOutput

def write (bs : Bytes) (o : FaultyOutput) : Except IoError Unit × FaultyOutput :=
  match o.faults with
  | some k :: faults =>
    if k < bs.length then (.error .writerFull, ⟨faults, o.stored ++ bs.take k⟩)
    else (.ok (), ⟨faults, o.stored ++ bs⟩)
  | faults => (.ok (), ⟨faults.tail, o.stored ++ bs⟩)

def sink : Sink FaultyOutput := ⟨write, fun o => (.ok (), o), id⟩

theorem storesPart : sink.StoresPart FaultyOutput.stored where
  write := by
    rintro bs ⟨faults, stored⟩
    rcases faults with _ | ⟨_ | k, faults⟩
    · exact .inl ⟨_, rfl, rfl⟩
    · exact .inl ⟨_, rfl, rfl⟩
    · by_cases short : k < bs.length
      · refine .inr ⟨.writerFull, ⟨faults, stored ++ bs.take k⟩, k, ?_, short, rfl⟩
        simp [sink, write, short]
      · refine .inl ⟨⟨faults, stored ++ bs⟩, ?_, rfl⟩
        simp [sink, write, short]
  flush _ := rfl

end FaultyOutput

end BuildScript.Files
