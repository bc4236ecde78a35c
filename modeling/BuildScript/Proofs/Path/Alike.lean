import BuildScript.Proofs.Path.Split
import BuildScript.Proofs.Text.Letters

/-!
# Paths that the order does not tell apart

Paths are compared by the bytes that their bytes stand for. Everything else that is done with a
path looks at separators, dots and colons only, and these are told apart by what they stand for.
So every operation can be made on what the bytes stand for, and paths that are alike stay alike.

* `Style.isSep_fold`, `Style.fold_eq_iff`: what is kept of a byte;
* `Style.compare_eq_iff`, `Style.compare_eq_iff_forall₂`: paths are alike if their bytes are;
* `Style.isAbsolute_folded`, `Style.split_folded`, `Style.splitExtension_folded`,
  `Style.folded_join`: the operations on what the bytes stand for;
* `Style.compare_congruence`: the main result.
-/

namespace BuildScript.Path

/-- Two separators, or bytes that are the same up to case where case does not matter. -/
def Style.AlikeByte (style : Style) (a b : UInt8) : Prop :=
  (style.isSep a = true ∧ style.isSep b = true) ∨ style.eqByte a b = true

/-- What the bytes of a path stand for. -/
def Style.folded (style : Style) (path : Bytes) : Bytes := path.map style.fold

/-- The parts with what their bytes stand for. -/
def Split.folded (style : Style) (parts : Split) : Split :=
  ⟨style.folded parts.head, style.folded parts.tail⟩

/-- Paths cut at the same place into parts that are alike. -/
structure Split.Alike (style : Style) (a b : Split) : Prop where
  length_head : a.head.length = b.head.length
  length_tail : a.tail.length = b.tail.length
  compare_head : style.compare a.head b.head = .eq
  compare_tail : style.compare a.tail b.tail = .eq

namespace Style

variable {style : Style}

/-! ## Bytes -/

theorem isSep_slash (style : Style) : style.isSep slash = true := by
  cases style <;> rfl

theorem fold_of_isSep {b : UInt8} (h : style.isSep b = true) : style.fold b = slash := if_pos h

theorem fold_of_not_isSep {b : UInt8} (h : style.isSep b = false) :
    style.fold b = style.foldCase b :=
  if_neg (by simp [h])

/-- What is no letter stands for itself as far as case goes, and nothing else does. -/
theorem foldCase_eq_iff {b c : UInt8} (hc : ¬Bytes.IsLetter c) :
    style.foldCase b = c ↔ b = c := by
  cases style
  · rfl
  · exact Bytes.lowerByte_eq_iff_eq hc

theorem isSep_foldCase (b : UInt8) : style.isSep (style.foldCase b) = style.isSep b := by
  cases style
  · rfl
  · rw [Bool.eq_iff_iff]
    have hslash : windows.foldCase b = slash ↔ b = slash := foldCase_eq_iff (by decide)
    have hbackslash : windows.foldCase b = backslash ↔ b = backslash :=
      foldCase_eq_iff (by decide)
    simp [isSep, hslash, hbackslash]

/-- A byte stands for a separator exactly if it is one. -/
theorem isSep_fold (b : UInt8) : style.isSep (style.fold b) = style.isSep b := by
  by_cases h : style.isSep b = true
  · rw [fold_of_isSep h, isSep_slash, h]
  · rw [fold_of_not_isSep (by simpa using h), isSep_foldCase]

/-- What is neither a letter nor a separator stands for itself, and nothing else stands for it. -/
theorem fold_eq_iff {b c : UInt8} (hc : ¬Bytes.IsLetter c) (hsep : style.isSep c = false) :
    style.fold b = c ↔ b = c := by
  by_cases h : style.isSep b = true
  · have hslash : slash ≠ c := by
      rintro rfl
      rw [isSep_slash] at hsep
      cases hsep
    have hb : b ≠ c := by
      rintro rfl
      rw [h] at hsep
      cases hsep
    rw [fold_of_isSep h]
    exact iff_of_false hslash hb
  · rw [fold_of_not_isSep (by simpa using h), foldCase_eq_iff hc]

/-- Bytes are alike exactly if they stand for the same. -/
theorem fold_eq_fold_iff {a b : UInt8} : style.fold a = style.fold b ↔ style.AlikeByte a b := by
  constructor
  · intro h
    have hsep := congrArg style.isSep h
    rw [isSep_fold, isSep_fold] at hsep
    by_cases ha : style.isSep a = true
    · exact .inl ⟨ha, hsep ▸ ha⟩
    · have ha : style.isSep a = false := by simpa using ha
      rw [fold_of_not_isSep ha, fold_of_not_isSep (hsep ▸ ha)] at h
      exact .inr (beq_iff_eq.2 h)
  · rintro (⟨ha, hb⟩ | h)
    · rw [fold_of_isSep ha, fold_of_isSep hb]
    · have hcase : style.foldCase a = style.foldCase b := beq_iff_eq.1 h
      have hsep : style.isSep a = style.isSep b := by
        rw [← isSep_foldCase a, hcase, isSep_foldCase]
      rw [fold, fold, hsep, hcase]

theorem fold_beq {b c : UInt8} (hc : ¬Bytes.IsLetter c) (hsep : style.isSep c = false) :
    (style.fold b == c) = (b == c) := by
  rw [Bool.eq_iff_iff, beq_iff_eq, beq_iff_eq, fold_eq_iff hc hsep]

/-! ## The order -/

/-- Comparing byte strings is the lexicographic order of lists of bytes. -/
theorem compareBytes_eq (as bs : Bytes) : compareBytes as bs = Ord.compare as bs := by
  induction as generalizing bs with
  | nil => cases bs <;> rfl
  | cons a as ih =>
    cases bs with
    | nil => rfl
    | cons b bs =>
      rw [compareBytes, List.compare_cons_cons, ih]
      by_cases hlt : a < b
      · rw [if_pos hlt, Std.compare_eq_lt.2 hlt]
        rfl
      by_cases hgt : b < a
      · rw [if_neg hlt, if_pos hgt, Std.compare_eq_gt.2 hgt]
        rfl
      · obtain rfl : a = b := UInt8.le_antisymm (UInt8.not_lt.1 hgt) (UInt8.not_lt.1 hlt)
        rw [if_neg hlt, if_neg hgt, Std.compare_self]
        rfl

instance (style : Style) : Std.TransCmp style.compare where
  eq_swap := by
    intro a b
    rw [compare, compare, compareBytes_eq, compareBytes_eq]
    exact Std.OrientedCmp.eq_swap
  isLE_trans := by
    intro a b c hab hbc
    rw [compare, compareBytes_eq] at hab hbc ⊢
    exact Std.TransCmp.isLE_trans hab hbc

/-- Paths are alike exactly if their bytes stand for the same. -/
theorem compare_eq_iff {a b : Bytes} :
    style.compare a b = .eq ↔ style.folded a = style.folded b := by
  rw [compare, compareBytes_eq]
  exact Std.LawfulEqCmp.compare_eq_iff_eq

/-- Alike are paths whose bytes are alike, one by one. -/
theorem compare_eq_iff_forall₂ {a b : Bytes} :
    style.compare a b = .eq ↔ List.Forall₂ style.AlikeByte a b := by
  rw [compare_eq_iff, folded, folded, ← List.forall₂_eq_eq_eq, List.forall₂_map_left_iff,
    List.forall₂_map_right_iff]
  simp only [fold_eq_fold_iff]

theorem length_eq_of_compare {a b : Bytes} (h : style.compare a b = .eq) :
    a.length = b.length := by
  simpa [folded] using congrArg List.length (compare_eq_iff.1 h)

end Style

theorem Split.alike_iff {style : Style} {a b : Split} :
    Split.Alike style a b ↔ a.folded style = b.folded style := by
  constructor
  · intro h
    rw [folded, folded, Style.compare_eq_iff.1 h.compare_head,
      Style.compare_eq_iff.1 h.compare_tail]
  · intro h
    obtain ⟨hhead, htail⟩ := Split.mk.inj h
    have hhead := Style.compare_eq_iff.2 hhead
    have htail := Style.compare_eq_iff.2 htail
    exact ⟨Style.length_eq_of_compare hhead, Style.length_eq_of_compare htail, hhead, htail⟩

namespace Style

variable {style : Style}

/-! ## Operations on what the bytes stand for -/

theorem isAbsolute_folded (path : Bytes) :
    style.isAbsolute (style.folded path) = style.isAbsolute path := by
  cases path with
  | nil => rfl
  | cons a rest =>
    cases style with
    | posix => simp [folded, isAbsolute, isSep_fold]
    | windows =>
      have hcolon (b : UInt8) : (windows.fold b == colon) = (b == colon) := fold_beq (by decide) rfl
      rcases rest with _ | ⟨b, _ | ⟨c, rest⟩⟩
      · simp [folded, isAbsolute, isSep_fold]
      · simp [folded, isAbsolute, isSep_fold]
      · simp [folded, isAbsolute, isSep_fold, hcolon]

theorem reverse_folded (path : Bytes) :
    (style.folded path).reverse = style.folded path.reverse :=
  List.map_reverse.symm

section Tests

variable (test : UInt8 → Bool) (h : ∀ b, test (style.fold b) = test b)
include h

/-- A test that asks only what a byte stands for ends a run at the same place. -/
theorem takeWhile_folded (path : Bytes) :
    (style.folded path).takeWhile test = style.folded (path.takeWhile test) := by
  rw [folded, folded, List.takeWhile_map, Function.comp_def]
  simp only [h]

theorem dropWhile_folded (path : Bytes) :
    (style.folded path).dropWhile test = style.folded (path.dropWhile test) := by
  rw [folded, folded, List.dropWhile_map, Function.comp_def]
  simp only [h]

end Tests

theorem not_isSep_fold (b : UInt8) : (!style.isSep (style.fold b)) = !style.isSep b := by
  rw [isSep_fold]

theorem segment_folded (path : Bytes) :
    style.segment (style.folded path) = style.folded (style.segment path) := by
  rw [segment, segment, reverse_folded, takeWhile_folded _ not_isSep_fold, reverse_folded]

theorem lead_folded (path : Bytes) :
    style.lead (style.folded path) = style.folded (style.lead path) := by
  rw [lead, lead, reverse_folded, dropWhile_folded _ not_isSep_fold, reverse_folded]

theorem trimEnd_folded (path : Bytes) :
    style.trimEnd (style.folded path) = style.folded (style.trimEnd path) := by
  rw [trimEnd, trimEnd, reverse_folded, dropWhile_folded _ isSep_fold, reverse_folded]

theorem split_folded (path : Bytes) :
    style.split (style.folded path) = (style.split path).folded style := by
  have hempty : (style.folded (style.trimEnd (style.lead path))).isEmpty =
      (style.trimEnd (style.lead path)).isEmpty := List.isEmpty_map
  simp only [split, Split.folded, lead_folded, trimEnd_folded, segment_folded, hempty]
  split <;> rfl

theorem splitExtension_folded (path : Bytes) :
    style.splitExtension (style.folded path) = (style.splitExtension path).folded style := by
  have hdot (b : UInt8) : (style.fold b == dot) = (b == dot) :=
    fold_beq (by decide) (by cases style <;> rfl)
  have hother (b : UInt8) : (style.fold b != dot) = (b != dot) := by
    rw [bne, hdot, bne]
  simp only [splitExtension, Split.folded, lead_folded, segment_folded,
    takeWhile_folded (· == dot) hdot, dropWhile_folded (· == dot) hdot,
    takeWhile_folded (· != dot) hother, dropWhile_folded (· != dot) hother]
  simp only [folded, List.map_append]

theorem needsSep_folded (path : Bytes) :
    style.needsSep (style.folded path) = style.needsSep path := by
  rw [needsSep, needsSep, folded, List.getLast?_map]
  cases path.getLast? with
  | none => rfl
  | some b => simp [isSep_fold]

theorem fold_separator (style : Style) : style.fold style.separator = slash := by
  cases style <;> rfl

/-- What a join stands for depends on what the two paths stand for. -/
theorem folded_join (base component : Bytes) :
    style.folded (style.join base component) =
      if style.isAbsolute (style.folded component) then style.folded component
      else if style.needsSep (style.folded base) then
        style.folded base ++ slash :: style.folded component
      else style.folded base ++ style.folded component := by
  rw [isAbsolute_folded, needsSep_folded, join]
  split
  · rfl
  · split
    · simp [folded, fold_separator]
    · simp [folded]

/-- The order is a total preorder, in which paths are alike if their bytes are, and nothing that is
done with paths tells apart what it does not tell apart. -/
theorem compare_congruence (style : Style) :
    (∀ a, style.compare a a = .eq) ∧
    (∀ a b, style.compare b a = (style.compare a b).swap) ∧
    (∀ a b c, (style.compare a b).isLE → (style.compare b c).isLE → (style.compare a c).isLE) ∧
    (∀ a b, style.compare a b = .eq ↔ List.Forall₂ style.AlikeByte a b) ∧
    ∀ a a' b b', style.compare a a' = .eq → style.compare b b' = .eq →
      style.isAbsolute a = style.isAbsolute a' ∧
      Split.Alike style (style.split a) (style.split a') ∧
      Split.Alike style (style.splitExtension a) (style.splitExtension a') ∧
      style.compare (style.join a b) (style.join a' b') = .eq ∧
      style.compare a b = style.compare a' b' := by
  refine ⟨fun a => Std.ReflCmp.compare_self, fun a b => Std.OrientedCmp.eq_swap,
    fun a b c => Std.TransCmp.isLE_trans, fun a b => compare_eq_iff_forall₂, ?_⟩
  intro a a' b b' ha hb
  have hfolda := compare_eq_iff.1 ha
  have hfoldb := compare_eq_iff.1 hb
  refine ⟨?_, ?_, ?_, ?_, ?_⟩
  · rw [← isAbsolute_folded a, ← isAbsolute_folded a', hfolda]
  · rw [Split.alike_iff, ← split_folded, ← split_folded, hfolda]
  · rw [Split.alike_iff, ← splitExtension_folded, ← splitExtension_folded, hfolda]
  · rw [compare_eq_iff, folded_join, folded_join, hfolda, hfoldb]
  · rw [Std.TransCmp.congr_left ha, Std.TransCmp.congr_right hb]

/-- Two spellings of a path in the root of a drive, with a name that begins with a dot. -/
def spelled : Bytes := Bytes.ofAscii "C:\\/.A.Tar"
def respelled : Bytes := Bytes.ofAscii "c:/\\.a.tAR"

theorem compare_congruence_spelled :
    windows.compare spelled respelled = .eq ∧
    windows.compare (Bytes.ofAscii "X/y") (Bytes.ofAscii "x\\Y") = .eq ∧
    windows.isAbsolute spelled = windows.isAbsolute respelled ∧
    Split.Alike windows ⟨Bytes.ofAscii "C:", Bytes.ofAscii ".A.Tar"⟩
      ⟨Bytes.ofAscii "c:", Bytes.ofAscii ".a.tAR"⟩ ∧
    Split.Alike windows ⟨Bytes.ofAscii "C:\\/.A", Bytes.ofAscii ".Tar"⟩
      ⟨Bytes.ofAscii "c:/\\.a", Bytes.ofAscii ".tAR"⟩ ∧
    windows.compare (Bytes.ofAscii "C:\\/.A.Tar\\X/y") (Bytes.ofAscii "c:/\\.a.tAR\\x\\Y") = .eq ∧
    windows.compare spelled (Bytes.ofAscii "X/y") =
      windows.compare respelled (Bytes.ofAscii "x\\Y") := by
  have hpath : windows.compare spelled respelled = .eq := by decide
  have hmore : windows.compare (Bytes.ofAscii "X/y") (Bytes.ofAscii "x\\Y") = .eq := by decide
  obtain ⟨-, -, -, -, hcongr⟩ := compare_congruence windows
  obtain ⟨habs, hsplit, hext, hjoin, hcmp⟩ := hcongr _ _ _ _ hpath hmore
  exact ⟨hpath, hmore, habs, hsplit, hext, hjoin, hcmp⟩

end Style

end BuildScript.Path
