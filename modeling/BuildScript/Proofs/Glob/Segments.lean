import BuildScript.Glob.Walk
import BuildScript.Proofs.Path.Words
import Mathlib.Data.List.TakeWhile

/-!
# The segments of a pattern for paths

A pattern asks for a directory, cut off behind its first word with a wildcard, and for names
below it, one segment after the other.

* `globSegments`: the segments from the first with a wildcard on;
* `globDir`: the directory in which the first of them is looked up;
* `globCases`: splitting a pattern takes its last segment off, until one is left.
-/

namespace BuildScript.Glob

open BuildScript.Path

variable {style : Style}

/-! ## Segments with wildcards -/

/-- The segments from the first with a wildcard on. -/
def globSegments (style : Style) (pattern : Bytes) : List Bytes :=
  (style.segments pattern).dropWhile fun segment => !isGlob segment

/-- A pattern up to the end of its first segment with a wildcard. -/
def throughFirstGlob (style : Style) (pattern : Bytes) : Bytes :=
  pattern.takeWhile (fun b => !isWildcard b) ++
    (pattern.dropWhile fun b => !isWildcard b).takeWhile fun b => !style.isSep b

/-- The directory in which the first segment with a wildcard is looked up. -/
def globDir (style : Style) (pattern : Bytes) : Bytes :=
  (style.split (throughFirstGlob style pattern)).head

/-- The wildcards of a path are those of its words. -/
theorem any_isGlob_words (style : Style) (path : Bytes) :
    (style.words path).any isGlob = isGlob path := by
  have hpieces : (path.splitOnP style.isSep).any isGlob = isGlob path := by
    induction path with
    | nil => rfl
    | cons b path ih =>
      rw [List.splitOnP_cons_eq_if_modifyHead]
      split
      · rename_i hb
        rw [List.any_cons, ih]
        simp [isGlob, not_isWildcard_of_isSep hb]
      · obtain ⟨piece, pieces, hp⟩ :=
          List.exists_cons_of_ne_nil (List.splitOnP_ne_nil style.isSep path)
        rw [hp, List.any_cons] at ih
        rw [hp, List.modifyHead_cons, List.any_cons]
        simp only [isGlob, List.any_cons] at ih ⊢
        rw [← ih, Bool.or_assoc]
  rw [Style.words, List.any_filter, ← hpieces]
  congr 1
  funext piece
  cases piece with
  | nil => rfl
  | cons b piece => simp

/-! ## Splitting a pattern -/

theorem not_isGlob_of_isSep {seps : Bytes} (h : ∀ b ∈ seps, style.isSep b = true) :
    isGlob seps = false := by
  rw [isGlob, List.any_eq_false]
  intro b hb
  simp [not_isWildcard_of_isSep (h b hb)]

theorem isGlob_append (x y : Bytes) : isGlob (x ++ y) = (isGlob x || isGlob y) := by
  simp [isGlob]

theorem exists_first_wildcard {pattern : Bytes} (h : isGlob pattern = true) :
    ∃ front b rest, pattern = front ++ b :: rest ∧ isGlob front = false ∧
      isWildcard b = true := by
  obtain ⟨b, hb, hw⟩ := List.any_eq_true.1 h
  cases hrest : pattern.dropWhile fun b => !isWildcard b with
  | nil =>
    have := List.dropWhile_eq_nil_iff.1 hrest b hb
    simp [hw] at this
  | cons w rest =>
    refine ⟨pattern.takeWhile fun b => !isWildcard b, w, rest, ?_, ?_, ?_⟩
    · rw [← hrest, List.takeWhile_append_dropWhile]
    · rw [isGlob, List.any_eq_false]
      intro a ha
      simpa using List.mem_takeWhile_imp ha
    · simpa using dropWhile_head hrest

theorem throughFirstGlob_append {front rest : Bytes} {b : UInt8} (hfront : isGlob front = false)
    (hb : isWildcard b = true) :
    throughFirstGlob style (front ++ b :: rest) =
      front ++ b :: rest.takeWhile fun b => !style.isSep b := by
  have hpos : ∀ a ∈ front, (!isWildcard a) = true := by
    intro a ha
    simpa using List.any_eq_false.1 hfront a ha
  have hsep : style.isSep b = false := by
    cases h : style.isSep b with
    | false => rfl
    | true => rw [not_isWildcard_of_isSep h] at hb; cases hb
  simp [throughFirstGlob, List.takeWhile_append_of_pos hpos, List.dropWhile_append_of_pos hpos,
    hb, hsep]

/-- While the directory of a pattern has a wildcard, the last segment is the last of those that
are looked up one after the other. -/
theorem cut_of_isGlob_head {path seps : Bytes} {parts : Split} (h : style.Cut path seps parts)
    (hglob : isGlob parts.head = true) :
    style.needsSep parts.head = true ∧
      globSegments style path = globSegments style parts.head ++ [parts.tail] ∧
      globDir style path = globDir style parts.head := by
  obtain ⟨hseps, hneeds⟩ : seps ≠ [] ∧ style.needsSep parts.head = true := by
    rcases h.head with hhead | ⟨-, hroot⟩
    · exact hhead
    · rw [not_isGlob_of_isSep hroot] at hglob
      cases hglob
  refine ⟨hneeds, ?_, ?_⟩
  · have hne : path ≠ [] := by
      rw [h.path_eq]
      simp [hseps]
    obtain ⟨word, hword, hw⟩ := List.any_eq_true.1 ((any_isGlob_words style _).trans hglob)
    rw [globSegments, globSegments, Style.segments_cut h hne, Style.segments_of_needsSep hneeds,
      List.dropWhile_append, if_neg]
    intro hnil
    have := List.dropWhile_eq_nil_iff.1 (List.isEmpty_iff.1 hnil) word hword
    simp [hw] at this
  · obtain ⟨front, b, rest, hhead, hfront, hb⟩ := exists_first_wildcard hglob
    obtain ⟨s, seps, rfl⟩ := List.exists_cons_of_ne_nil hseps
    have hs : style.isSep s = true := h.isSep_seps s List.mem_cons_self
    have hpath : path = front ++ b :: (rest ++ s :: (seps ++ parts.tail)) := by
      rw [h.path_eq, hhead]
      simp
    have htake : (rest ++ s :: (seps ++ parts.tail)).takeWhile (fun b => !style.isSep b) =
        rest.takeWhile fun b => !style.isSep b := by
      rw [List.takeWhile_append]
      split
      · rename_i hall
        rw [List.takeWhile_cons_of_neg (by simp [hs]), List.append_nil]
        exact (List.takeWhile_prefix _).eq_of_length hall |>.symm
      · rfl
    rw [globDir, globDir, hpath, hhead, throughFirstGlob_append hfront hb,
      throughFirstGlob_append hfront hb, htake]

/-- Once the directory of a pattern has no wildcard, the last segment is the only one that is
looked up. -/
theorem cut_of_isGlob_tail {path seps : Bytes} {parts : Split} (h : style.Cut path seps parts)
    (hhead : isGlob parts.head = false) (htail : isGlob parts.tail = true) :
    globSegments style path = [parts.tail] ∧ throughFirstGlob style path = path := by
  have hne : path ≠ [] := by
    rintro rfl
    have : parts.tail = [] := (List.append_eq_nil_iff.1 h.path_eq.symm).2
    rw [this] at htail
    cases htail
  constructor
  · have hwords : ∀ word ∈ style.words parts.head, (!isGlob word) = true := by
      have hany := (any_isGlob_words style _).trans hhead
      intro word hword
      simpa using List.any_eq_false.1 hany word hword
    rw [globSegments, Style.segments_cut h hne, List.dropWhile_append_of_pos hwords,
      List.dropWhile_cons_of_neg (by simpa using htail)]
  · obtain ⟨front, b, rest, heq, hfront, hb⟩ := exists_first_wildcard htail
    have hpath : path = (parts.head ++ seps ++ front) ++ b :: rest := by
      rw [h.path_eq, heq]
      simp
    have hbefore : isGlob (parts.head ++ seps ++ front) = false := by
      rw [isGlob_append, isGlob_append, hhead, not_isGlob_of_isSep h.isSep_seps, hfront]
      rfl
    have hrest : rest.takeWhile (fun b => !style.isSep b) = rest := by
      rw [List.takeWhile_eq_self_iff]
      intro a ha
      have : a ∈ parts.tail := by rw [heq]; simp [ha]
      simp [h.isSep_tail a this]
    rw [hpath, throughFirstGlob_append hbefore hb, hrest]

/-- A pattern is one segment behind another pattern, or one segment in a directory. -/
theorem globCases (style : Style) {pattern : Bytes} (h : isGlob pattern = true) :
    (isGlob (style.split pattern).head = true ∧
      style.needsSep (style.split pattern).head = true ∧
      globSegments style pattern =
        globSegments style (style.split pattern).head ++ [(style.split pattern).tail] ∧
      globDir style pattern = globDir style (style.split pattern).head) ∨
    (isGlob (style.split pattern).head = false ∧ isGlob (style.split pattern).tail = true ∧
      globSegments style pattern = [(style.split pattern).tail] ∧
      globDir style pattern = (style.split pattern).head) := by
  obtain ⟨seps, hcut⟩ := style.split_cut pattern
  cases hhead : isGlob (style.split pattern).head with
  | true => exact .inl ⟨rfl, cut_of_isGlob_head hcut hhead⟩
  | false =>
    have htail : isGlob (style.split pattern).tail = true := by
      rw [hcut.path_eq, isGlob_append, isGlob_append, hhead,
        not_isGlob_of_isSep hcut.isSep_seps] at h
      simpa using h
    obtain ⟨hsegments, hthrough⟩ := cut_of_isGlob_tail hcut hhead htail
    exact .inr ⟨rfl, htail, hsegments, by rw [globDir, hthrough]⟩

/-- No segment but the last is empty. -/
theorem globSegments_ne_nil {pattern : Bytes} (h : style.needsSep pattern = true) :
    ∀ segment ∈ globSegments style pattern, segment ≠ [] := by
  intro segment hmem
  have := (List.dropWhile_sublist _).mem hmem
  rw [Style.segments_of_needsSep h] at this
  exact Style.ne_nil_of_mem_words this

end BuildScript.Glob
