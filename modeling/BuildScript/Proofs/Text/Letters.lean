import BuildScript.Text.Bytes
import Mathlib.Data.List.Forall2

/-!
# Letters in either case

Lowering changes upper-case ASCII letters and nothing else, and makes letters of letters only.

* `Bytes.Recased`: texts that differ in the case of letters alone;
* `Bytes.lower_eq_iff`: these are the texts that are the same in lower case;
* `Bytes.lowerByte_eq_iff_eq`: what is no letter is lowered from itself only.
-/

namespace BuildScript.Bytes

/-- The same byte, or the same ASCII letter in the other case. -/
inductive SameLetter : UInt8 → UInt8 → Prop
  | same (b : UInt8) : SameLetter b b
  | lowered {b : UInt8} : 0x41 ≤ b → b ≤ 0x5A → SameLetter b (b + 0x20)
  | raised {b : UInt8} : 0x41 ≤ b → b ≤ 0x5A → SameLetter (b + 0x20) b

/-- Texts that differ in the case of ASCII letters alone. -/
def Recased : Bytes → Bytes → Prop := List.Forall₂ SameLetter

theorem lowerByte_of_upper {b : UInt8} (hle : 0x41 ≤ b) (hge : b ≤ 0x5A) :
    lowerByte b = b + 0x20 := if_pos ⟨hle, hge⟩

/-- What is in lower case stays so. -/
theorem lowerByte_add {b : UInt8} (hle : 0x41 ≤ b) (hge : b ≤ 0x5A) :
    lowerByte (b + 0x20) = b + 0x20 := by
  have hlow : ¬ (0x41 ≤ b + 0x20 ∧ b + 0x20 ≤ 0x5A) := by grind
  exact if_neg hlow

theorem lowerByte_eq_iff {a b : UInt8} : lowerByte a = lowerByte b ↔ SameLetter a b := by
  constructor
  · intro h
    by_cases ha : 0x41 ≤ a ∧ a ≤ 0x5A
    · by_cases hb : 0x41 ≤ b ∧ b ≤ 0x5A
      · rw [lowerByte, lowerByte, if_pos ha, if_pos hb] at h
        rw [(UInt8.add_left_inj 0x20).1 h]
        exact .same b
      · rw [lowerByte, lowerByte, if_pos ha, if_neg hb] at h
        exact h ▸ .lowered ha.1 ha.2
    · by_cases hb : 0x41 ≤ b ∧ b ≤ 0x5A
      · rw [lowerByte, lowerByte, if_neg ha, if_pos hb] at h
        exact h ▸ .raised hb.1 hb.2
      · rw [lowerByte, lowerByte, if_neg ha, if_neg hb] at h
        exact h ▸ .same a
  · rintro (_ | ⟨hle, hge⟩ | ⟨hle, hge⟩)
    · rfl
    · rw [lowerByte_add hle hge, lowerByte_of_upper hle hge]
    · rw [lowerByte_add hle hge, lowerByte_of_upper hle hge]

theorem lower_eq_iff {bs cs : Bytes} : lower bs = lower cs ↔ Recased bs cs := by
  rw [Recased, lower, lower, ← List.forall₂_eq_eq_eq, List.forall₂_map_left_iff,
    List.forall₂_map_right_iff]
  simp only [lowerByte_eq_iff]

/-- Whether a byte is an ASCII letter, in either case. -/
def IsLetter (b : UInt8) : Prop := (0x41 ≤ b ∧ b ≤ 0x5A) ∨ (0x61 ≤ b ∧ b ≤ 0x7A)

instance (b : UInt8) : Decidable (IsLetter b) := inferInstanceAs (Decidable (_ ∨ _))

/-- What is no letter stays as it is, and is not made of a letter. -/
theorem lowerByte_eq_iff_eq {b c : UInt8} (hc : ¬ IsLetter c) : lowerByte b = c ↔ b = c := by
  by_cases hb : 0x41 ≤ b ∧ b ≤ 0x5A
  · rw [lowerByte_of_upper hb.1 hb.2]
    have hne : b + 0x20 ≠ c := by
      rintro rfl
      exact hc (.inr (by grind))
    have hbc : b ≠ c := by
      rintro rfl
      exact hc (.inl hb)
    exact iff_of_false hne hbc
  · rw [lowerByte, if_neg hb]

theorem length_lower (bs : Bytes) : (lower bs).length = bs.length := List.length_map _

theorem drop_lower (bs : Bytes) (n : Nat) : (lower bs).drop n = lower (bs.drop n) :=
  List.map_drop.symm

theorem take_lower (bs : Bytes) (n : Nat) : (lower bs).take n = lower (bs.take n) :=
  List.map_take.symm

end BuildScript.Bytes
