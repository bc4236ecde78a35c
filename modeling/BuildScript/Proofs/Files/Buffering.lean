import BuildScript.Files.Buffered
import BuildScript.Proofs.Rules.Stream

/-!
# Outputs behind a buffer

An output that stores everything does so behind a buffer, too, if what is held back is counted with
what is stored. A flush leaves nothing in the buffer.

* `Slot.Apart`: a buffer that an output does not touch;
* `Sink.pour_storesAll`, `Sink.fill_storesAll`: emptying and filling the buffer;
* `Sink.buffered_storesAll`: the output behind it;
* `Sink.flush_buffered`: nothing is held back after a flush.
-/

namespace BuildScript.Files

variable {ω : Type}

/-- A buffer that an output does not touch, and that is no part of what it stores. -/
structure Slot.Apart (slot : Slot ω Bytes) (sink : Sink ω) (sound : ω → Prop) (text : ω → Bytes) :
    Prop where
  get_set : ∀ bs w, slot.get (slot.set bs w) = bs
  sound_set : ∀ bs w, sound w → sound (slot.set bs w)
  text_set : ∀ bs w, text (slot.set bs w) = text w
  get_write : ∀ bs w, slot.get (sink.write bs w).2 = slot.get w
  get_flush : ∀ w, slot.get (sink.flush w).2 = slot.get w

namespace Sink

variable {slot : Slot ω Bytes} {sink : Sink ω} {sound : ω → Prop} {text : ω → Bytes}
variable (h : sink.StoresAll sound text) (apart : slot.Apart sink sound text)
include h apart

/-- Writing what is in the buffer empties it. -/
theorem pour_storesAll {w : ω} (hw : sound w) :
    ∃ w', sink.pour slot w = (.ok (), w') ∧ sound w' ∧ text w' = text w ++ slot.get w ∧
      slot.get w' = [] := by
  rw [pour]
  cases hheld : slot.get w with
  | nil => exact ⟨w, rfl, hw, (List.append_nil _).symm, hheld⟩
  | cons b held =>
    obtain ⟨w', hwrite, hsound, htext⟩ := h.write (b :: held) w hw
    refine ⟨slot.set [] w', ?_, apart.sound_set [] w' hsound, ?_, apart.get_set [] w'⟩
    · simp only [hwrite]
    · rw [apart.text_set, htext]

/-- Room is made for bytes that do not fit. Bytes that would fill the whole buffer find it empty. -/
theorem room_storesAll {capacity : Nat} {bs : Bytes} {w : ω} (hw : sound w)
    (hlong : ¬ bs.length < capacity - (slot.get w).length) :
    ∃ w', (if capacity - (slot.get w).length < bs.length then sink.pour slot w else (.ok (), w)) =
        (.ok (), w') ∧ sound w' ∧ text w' ++ slot.get w' = text w ++ slot.get w ∧
      (capacity ≤ bs.length → slot.get w' = [] ∨ bs = []) := by
  by_cases hmore : capacity - (slot.get w).length < bs.length
  · obtain ⟨w', hpour, hsound, htext, hempty⟩ := pour_storesAll h apart hw
    rw [if_pos hmore]
    refine ⟨w', hpour, hsound, ?_, fun _ => .inl hempty⟩
    rw [htext, hempty, List.append_nil]
  · rw [if_neg hmore]
    refine ⟨w, rfl, hw, rfl, ?_⟩
    intro hlarge
    by_cases hheld : slot.get w = []
    · exact .inl hheld
    · have hpos := List.length_pos_iff.2 hheld
      have hzero : bs.length = 0 := by omega
      exact .inr (List.length_eq_zero_iff.1 hzero)

/-- A write into the buffer adds its bytes to what is stored and held back, whether or not the buffer
has room for them. -/
theorem fill_storesAll (capacity : Nat) (bs : Bytes) {w : ω} (hw : sound w) :
    ∃ w', sink.fill capacity slot bs w = (.ok (), w') ∧ sound w' ∧
      text w' ++ slot.get w' = text w ++ slot.get w ++ bs := by
  unfold fill
  by_cases hfits : bs.length < capacity - (slot.get w).length
  · refine ⟨slot.set (slot.get w ++ bs) w, if_pos hfits, apart.sound_set _ w hw, ?_⟩
    rw [apart.text_set, apart.get_set, List.append_assoc]
  obtain ⟨w₁, hroom, hsound₁, htext₁, hlast⟩ := room_storesAll h apart hw hfits
  rw [if_neg hfits, hroom]
  by_cases hlarge : capacity ≤ bs.length
  · obtain ⟨w₂, hwrite, hsound₂, htext₂⟩ := h.write bs w₁ hsound₁
    have hget : slot.get w₂ = slot.get w₁ := by
      have hwritten := apart.get_write bs w₁
      rwa [hwrite] at hwritten
    refine ⟨w₂, (if_pos hlarge).trans hwrite, hsound₂, ?_⟩
    rw [hget, htext₂, ← htext₁]
    rcases hlast hlarge with hempty | rfl
    · rw [hempty, List.append_nil, List.append_nil]
    · rw [List.append_nil, List.append_nil]
  · refine ⟨slot.set (slot.get w₁ ++ bs) w₁, if_neg hlarge, apart.sound_set _ w₁ hsound₁, ?_⟩
    rw [apart.text_set, apart.get_set, ← List.append_assoc, htext₁]

/-- A flush leaves nothing in the buffer. -/
theorem flush_buffered (capacity : Nat) {w : ω} (hw : sound w) :
    ∃ w', (sink.buffered capacity slot).flush w = (.ok (), w') ∧ sound w' ∧
      text w' = text w ++ slot.get w ∧ slot.get w' = [] := by
  obtain ⟨w₁, hpour, hsound₁, htext₁, hempty⟩ := pour_storesAll h apart hw
  obtain ⟨w₂, hflush, hsound₂, htext₂⟩ := h.flush w₁ hsound₁
  have hget : slot.get w₂ = slot.get w₁ := by
    have hflushed := apart.get_flush w₁
    rwa [hflush] at hflushed
  refine ⟨w₂, ?_, hsound₂, by rw [htext₂, htext₁], by rw [hget, hempty]⟩
  simp only [buffered, pourAndFlush, hpour, hflush]

/-- An output that stores everything does so behind a buffer. -/
theorem buffered_storesAll (capacity : Nat) :
    (sink.buffered capacity slot).StoresAll sound fun w => text w ++ slot.get w where
  write bs _ hw := fill_storesAll h apart capacity bs hw
  flush w hw := by
    obtain ⟨w', hflush, hsound, htext, hempty⟩ := flush_buffered h apart capacity hw
    exact ⟨w', hflush, hsound, by rw [htext, hempty, List.append_nil]⟩

/-- When the output is given up, what the buffer holds is stored, and the output itself is given up
behind it. -/
theorem close_buffered (capacity : Nat) {w : ω} (hw : sound w) :
    ∃ w', (sink.buffered capacity slot).close w = sink.close w' ∧ sound w' ∧
      text w' = text w ++ slot.get w ∧ slot.get w' = [] := by
  obtain ⟨w', hpour, hsound, htext, -⟩ := pour_storesAll h apart hw
  refine ⟨slot.set [] w', ?_, apart.sound_set [] w' hsound, ?_, apart.get_set [] w'⟩
  · simp only [buffered, hpour]
  · rw [apart.text_set, htext]

end Sink

end BuildScript.Files
