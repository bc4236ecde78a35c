import BuildScript.Deps.Sender
import BuildScript.Proofs.Text.Utf8
import Mathlib.Data.List.TakeWhile
import Mathlib.Data.Nat.Digits.Defs

/-!
# Names of descriptors

The environment names a descriptor by its number: decimal digits with a `+` before them or not,
and blanks around them.

* `Names`: these texts;
* `descriptorNumber?_eq_some_iff`: they and no others are read as numbers;
* `namedNumber?_eq_some_iff`: what the environment has is a text of this form.
-/

namespace BuildScript.Deps

open Utf8

/-- The number that decimal digits spell. -/
def decimal (digits : List Char) : Nat := Nat.ofDigits 10 (digits.reverse.map fun c => c.toNat - 48)

/-- A text names a descriptor. -/
structure Names (text : String) (n : Nat) : Prop where
  shape : ∃ before sign digits behind, text.toList = before ++ (sign ++ digits) ++ behind ∧
    (∀ c ∈ before, isBlank c = true) ∧ (∀ c ∈ behind, isBlank c = true) ∧
    (sign = [] ∨ sign = ['+']) ∧ digits ≠ [] ∧ (∀ c ∈ digits, c.isDigit = true) ∧
    decimal digits = n
  positive : 1 ≤ n
  bounded : n ≤ 2147483647

/-! ## Blanks -/

theorem exists_trim (cs : List Char) :
    ∃ before behind, cs = before ++ trim cs ++ behind ∧ (∀ c ∈ before, isBlank c = true) ∧
      ∀ c ∈ behind, isBlank c = true := by
  refine ⟨cs.takeWhile isBlank, ((cs.dropWhile isBlank).reverse.takeWhile isBlank).reverse,
    ?_, ?_, ?_⟩
  · have hrest : trim cs ++ ((cs.dropWhile isBlank).reverse.takeWhile isBlank).reverse =
        cs.dropWhile isBlank := by
      rw [trim, ← List.reverse_append, List.takeWhile_append_dropWhile, List.reverse_reverse]
    rw [List.append_assoc, hrest, List.takeWhile_append_dropWhile]
  · intro c hc
    exact List.mem_takeWhile_imp hc
  · intro c hc
    exact List.mem_takeWhile_imp (List.mem_reverse.1 hc)

theorem dropWhile_blanks {blanks cs : List Char} (h : ∀ c ∈ blanks, isBlank c = true)
    (hne : cs ≠ []) (hcs : ∀ c ∈ cs, isBlank c = false) (rest : List Char) :
    (blanks ++ (cs ++ rest)).dropWhile isBlank = cs ++ rest := by
  rw [List.dropWhile_append_of_pos h]
  cases cs with
  | nil => exact absurd rfl hne
  | cons c cs =>
    rw [List.cons_append, List.dropWhile_cons_of_neg]
    simp [hcs c List.mem_cons_self]

/-- Blanks at the ends go, and a text without blanks stays. -/
theorem trim_blanks {before cs behind : List Char} (hbefore : ∀ c ∈ before, isBlank c = true)
    (hne : cs ≠ []) (hcs : ∀ c ∈ cs, isBlank c = false) (hbehind : ∀ c ∈ behind, isBlank c = true) :
    trim (before ++ cs ++ behind) = cs := by
  have hback : ∀ c ∈ behind.reverse, isBlank c = true := fun c hc =>
    hbehind c (List.mem_reverse.1 hc)
  have hcore : ∀ c ∈ cs.reverse, isBlank c = false := fun c hc => hcs c (List.mem_reverse.1 hc)
  have hend := dropWhile_blanks hback (by simpa using hne) hcore []
  rw [List.append_nil] at hend
  rw [trim, List.append_assoc, dropWhile_blanks hbefore hne hcs, List.reverse_append, hend,
    List.reverse_reverse]

theorem isBlank_of_isDigit {c : Char} (h : c.isDigit = true) : isBlank c = false := by
  have hrange : 48 ≤ c.toNat ∧ c.toNat ≤ 57 := by
    simp only [Char.isDigit, Bool.and_eq_true, decide_eq_true_eq] at h
    exact h
  rw [Bool.eq_false_iff]
  intro hblank
  simp only [isBlank, Bool.or_eq_true, Bool.and_eq_true, decide_eq_true_eq] at hblank
  omega

/-! ## Digits -/

theorem foldlM_digits {digits : List Char} (start : Nat) :
    (digits.foldlM (fun n c => if c.isDigit then some (10 * n + (c.toNat - 48)) else none) start :
      Option Nat) =
      if digits.all Char.isDigit then some (10 ^ digits.length * start + decimal digits) else none := by
  induction digits generalizing start with
  | nil => simp [decimal]
  | cons c digits ih =>
    have hdecimal : decimal (c :: digits) =
        decimal digits + 10 ^ digits.length * (c.toNat - 48) := by
      simp [decimal, Nat.ofDigits_append, Nat.ofDigits_singleton]
    rw [List.foldlM_cons]
    by_cases hc : c.isDigit = true
    · rw [if_pos hc, Option.bind_eq_bind, Option.bind_some, ih, List.all_cons, hc, Bool.true_and,
        hdecimal, List.length_cons, Nat.pow_succ]
      congr 2
      ring
    · simp [hc]

theorem digits?_eq_some_iff {digits : List Char} {n : Nat} :
    digits? digits = some n ↔
      digits ≠ [] ∧ (∀ c ∈ digits, c.isDigit = true) ∧ decimal digits = n := by
  rw [digits?]
  cases digits with
  | nil => simp
  | cons c rest =>
    rw [if_neg (by simp), foldlM_digits]
    simp only [Nat.mul_zero, Nat.zero_add, Option.ite_none_right_eq_some, List.all_eq_true,
      Option.some.injEq, ne_eq, reduceCtorEq, not_false_eq_true, true_and]

/-! ## Names -/

/-- The numbers that are read are those that are named. -/
theorem descriptorNumber?_eq_some_iff {text : String} {n : Nat} :
    descriptorNumber? text = some n ↔ Names text n := by
  constructor
  · intro h
    obtain ⟨hdigits, hrange⟩ := Option.filter_eq_some_iff.1 h
    have hbounds : 0 < n ∧ n ≤ maxDescriptor := by simpa using hrange
    obtain ⟨hne, hall, hvalue⟩ := digits?_eq_some_iff.1 hdigits
    obtain ⟨before, behind, htext, hbefore, hbehind⟩ := exists_trim text.toList
    refine ⟨?_, hbounds.1, hbounds.2⟩
    by_cases hsign : (trim text.toList).head? = some plus
    · rw [if_pos hsign] at hne hall hvalue
      refine ⟨before, ['+'], (trim text.toList).tail, behind, ?_, hbefore, hbehind, .inr rfl, hne,
        hall, hvalue⟩
      have hcons : ['+'] ++ (trim text.toList).tail = trim text.toList := by
        cases htrim : trim text.toList with
        | nil =>
          rw [htrim] at hsign
          cases hsign
        | cons c rest =>
          rw [htrim] at hsign
          cases hsign
          rfl
      rw [hcons]
      exact htext
    · rw [if_neg hsign] at hne hall hvalue
      exact ⟨before, [], trim text.toList, behind, htext, hbefore, hbehind, .inl rfl, hne, hall,
        hvalue⟩
  · rintro ⟨⟨before, sign, digits, behind, htext, hbefore, hbehind, hsign, hne, hall, hvalue⟩,
      hpositive, hbounded⟩
    have hblank : ∀ c ∈ sign ++ digits, isBlank c = false := by
      intro c hc
      rcases List.mem_append.1 hc with hc | hc
      · rcases hsign with rfl | rfl
        · cases hc
        · rw [List.mem_singleton.1 hc]
          decide
      · exact isBlank_of_isDigit (hall c hc)
    have htrim : trim text.toList = sign ++ digits := by
      rw [htext]
      exact trim_blanks hbefore (by simp [hne]) hblank hbehind
    have hdigits : digits? digits = some n := digits?_eq_some_iff.2 ⟨hne, hall, hvalue⟩
    have hunsigned : (if (sign ++ digits).head? = some plus then (sign ++ digits).tail
        else sign ++ digits) = digits := by
      rcases hsign with rfl | rfl
      · rw [List.nil_append, if_neg]
        intro hhead
        have hmem : plus ∈ digits := List.mem_of_head? hhead
        exact absurd (hall plus hmem) (by decide)
      · rfl
    rw [descriptorNumber?, htrim, hunsigned, hdigits, Option.filter_some, if_pos]
    rw [Bool.and_eq_true, decide_eq_true_eq, decide_eq_true_eq]
    exact ⟨hpositive, hbounded⟩

/-- The number that the environment names, if it does. -/
def namedNumber? (value : Option Bytes) : Option Nat := (value.bind decode?).bind descriptorNumber?

theorem namedNumber?_eq_some_iff {value : Option Bytes} {n : Nat} :
    namedNumber? value = some n ↔ ∃ text, value = some (encode text) ∧ Names text n := by
  rw [namedNumber?, Option.bind_eq_some_iff]
  constructor
  · rintro ⟨text, htext, hnumber⟩
    obtain ⟨bs, rfl, hdecode⟩ := Option.bind_eq_some_iff.1 htext
    exact ⟨text, by rw [encode_of_decode? hdecode], descriptorNumber?_eq_some_iff.1 hnumber⟩
  · rintro ⟨text, rfl, hnames⟩
    exact ⟨text, decode?_encode text, descriptorNumber?_eq_some_iff.2 hnames⟩

/-- What is no text names nothing, and is like nothing at all. -/
theorem bind_decode?_of_not_text {value : Option Bytes}
    (h : ∀ text, value ≠ some (encode text)) : value.bind decode? = none := by
  cases hvalue : value.bind decode? with
  | none => rfl
  | some text =>
    obtain ⟨bs, rfl, hdecode⟩ := Option.bind_eq_some_iff.1 hvalue
    exact absurd (by rw [encode_of_decode? hdecode]) (h text)

end BuildScript.Deps
