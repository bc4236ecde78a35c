import BuildScript.Files.Output

/-!
# Outputs that take a fixed number of bytes

An output with a limit is never told to go back. So what it holds depends only on the text that was
written to it, however the text was cut into writes and whichever of them failed: it is the front of
that text that fits.

* `LimitedOutput.after`: the output that some text was written to;
* `LimitedOutput.write_after`: one more write;
* `LimitedOutput.after_append_of_full`: behind a text that does not fit, nothing is stored.
-/

namespace BuildScript.Files

/-- A text is not longer than what an output takes. -/
def Fits (limit : Option Nat) (text : Bytes) : Prop := ∀ n ∈ limit, text.length ≤ n

/-- The front of a text that an output takes. -/
def upTo (limit : Option Nat) (text : Bytes) : Bytes :=
  match limit with
  | none => text
  | some n => text.take n

variable {limit : Option Nat} {text more : Bytes}

@[simp] theorem fits_none : Fits none text := nofun

@[simp] theorem fits_some {n : Nat} : Fits (some n) text ↔ text.length ≤ n :=
  ⟨fun h => h n rfl, fun h _ hn => Option.some.inj hn ▸ h⟩

instance : Decidable (Fits limit text) :=
  match limit with
  | none => .isTrue fits_none
  | some _ => decidable_of_iff _ fits_some.symm

theorem Fits.of_append (h : Fits limit (text ++ more)) : Fits limit text := by
  intro n hn
  have hlength := h n hn
  rw [List.length_append] at hlength
  omega

theorem upTo_append_of_not_fits (h : ¬ Fits limit text) (more : Bytes) :
    upTo limit (text ++ more) = upTo limit text := by
  cases limit with
  | none => exact absurd fits_none h
  | some n =>
    rw [fits_some] at h
    exact List.take_append_of_le_length (by omega)

namespace LimitedOutput

/-- The output after this text was written to it. -/
def after (limit : Option Nat) (failFlush : Bool) (text : Bytes) (flushes : Nat) :
    LimitedOutput :=
  ⟨limit, failFlush, upTo limit text, flushes⟩

variable {failFlush : Bool} {flushes : Nat}

theorem empty_eq_after (limit : Option Nat) (failFlush : Bool) :
    empty limit failFlush = after limit failFlush [] 0 := by
  cases limit <;> simp [empty, after, upTo]

theorem after_append_of_full (h : ¬ Fits limit text) (more : Bytes) :
    after limit failFlush (text ++ more) flushes = after limit failFlush text flushes := by
  rw [after, upTo_append_of_not_fits h, after]

/-- A write that is not empty goes well exactly if the text still fits with it. -/
theorem write_after (bs : Bytes) :
    (after limit failFlush text flushes).write bs =
      (if bs = [] ∨ Fits limit (text ++ bs) then .ok () else .error .writerFull,
        after limit failFlush (text ++ bs) flushes) := by
  cases limit with
  | none => simp [write, room, after, upTo]
  | some n =>
    have hstored : text.take n ++ bs.take (min bs.length (n - (text.take n).length)) =
        (text ++ bs).take n := by
      rw [List.take_append, List.length_take]
      exact congrArg (text.take n ++ ·) (List.take_eq_take_iff.2 (by omega))
    have hall : min bs.length (n - (text.take n).length) = bs.length ↔
        bs = [] ∨ Fits (some n) (text ++ bs) := by
      rw [fits_some, List.length_append, List.length_take, ← List.length_eq_zero_iff]
      omega
    simp only [write, room, after, upTo, hstored, hall]

theorem write_after_of_fits {bs : Bytes} (h : Fits limit (text ++ bs)) :
    (after limit failFlush text flushes).write bs =
      (.ok (), after limit failFlush (text ++ bs) flushes) := by
  rw [write_after, if_pos (.inr h)]

theorem write_after_of_not_fits {bs : Bytes} (hbs : bs ≠ []) (h : ¬ Fits limit (text ++ bs)) :
    (after limit failFlush text flushes).write bs =
      (.error .writerFull, after limit failFlush (text ++ bs) flushes) := by
  rw [write_after, if_neg (not_or.2 ⟨hbs, h⟩)]

end LimitedOutput

end BuildScript.Files
