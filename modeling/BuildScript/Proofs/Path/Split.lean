import BuildScript.Path.Style
import Mathlib.Data.List.DropRight

/-!
# Paths in two, and paths behind one another

A path is its directory, a run of separators and its last segment, one behind the other. Either
the run is there and the directory ends in something else, or there is no run and the directory
is a root.

* `Style.Cut`: a path in these three parts;
* `Style.split_cut`: splitting a path cuts it;
* `Style.split_eq_iff_cut`: a path is cut in one way, the way in which it is split;
* `Style.take_join`: what is put behind a path leaves the path at its front;
* `Style.joinAll_cons`: names behind a directory.
-/

namespace BuildScript.Path.Style

variable {style : Style}

/-! ## Taking apart -/

/-- A path cut into a directory, separators and a last segment. -/
structure Cut (style : Style) (path seps : Bytes) (parts : Split) : Prop where
  path_eq : path = parts.head ++ seps ++ parts.tail
  isSep_seps : ∀ b ∈ seps, style.isSep b = true
  isSep_tail : ∀ b ∈ parts.tail, style.isSep b = false
  head : (seps ≠ [] ∧ style.needsSep parts.head = true) ∨
    (seps = [] ∧ ∀ b ∈ parts.head, style.isSep b = true)

theorem needsSep_iff {path : Bytes} :
    style.needsSep path = true ↔ ∃ l b, path = l ++ [b] ∧ style.isSep b = false := by
  rw [needsSep]
  cases h : path.getLast? with
  | none =>
    have : path = [] := List.getLast?_eq_none_iff.1 h
    simp [this]
  | some b =>
    obtain ⟨l, rfl⟩ := List.getLast?_eq_some_iff.1 h
    simp

theorem needsSep_eq_false_iff {path : Bytes} :
    style.needsSep path = false ↔ path = [] ∨ ∃ l b, path = l ++ [b] ∧ style.isSep b = true := by
  rw [needsSep]
  cases h : path.getLast? with
  | none =>
    have : path = [] := List.getLast?_eq_none_iff.1 h
    simp [this]
  | some b =>
    obtain ⟨l, rfl⟩ := List.getLast?_eq_some_iff.1 h
    simp

theorem lead_append_segment (style : Style) (path : Bytes) :
    style.lead path ++ style.segment path = path :=
  List.rdropWhile_append_rtakeWhile

theorem isSep_of_mem_segment {path : Bytes} {b : UInt8} (h : b ∈ style.segment path) :
    style.isSep b = false := by
  have := List.mem_rtakeWhile_imp (p := fun b => !style.isSep b) h
  simpa using this

/-- The lead of a path is empty or ends in a separator. -/
theorem lead_eq_nil_or (style : Style) (path : Bytes) :
    style.lead path = [] ∨ ∃ l b, style.lead path = l ++ [b] ∧ style.isSep b = true := by
  by_cases h : style.lead path = []
  · exact .inl h
  · have hlast : ¬(!style.isSep ((style.lead path).getLast h)) = true :=
      List.rdropWhile_last_not (fun b => !style.isSep b) path h
    refine .inr ⟨(style.lead path).dropLast, (style.lead path).getLast h, ?_, ?_⟩
    · exact (List.dropLast_append_getLast h).symm
    · simpa using hlast

theorem needsSep_trimEnd {path : Bytes} (h : style.trimEnd path ≠ []) :
    style.needsSep (style.trimEnd path) = true := by
  have hlast : ¬style.isSep ((style.trimEnd path).getLast h) = true :=
    List.rdropWhile_last_not style.isSep path h
  refine needsSep_iff.2 ⟨_, _, (List.dropLast_append_getLast h).symm, ?_⟩
  simpa using hlast

/-- Splitting a path cuts it. -/
theorem split_cut (style : Style) (path : Bytes) :
    ∃ seps, style.Cut path seps (style.split path) := by
  have hpath := style.lead_append_segment path
  by_cases h : style.trimEnd (style.lead path) = []
  · have hsplit : style.split path = ⟨style.lead path, style.segment path⟩ := by
      simp [split, h]
    rw [hsplit]
    refine ⟨[], by simpa using hpath.symm, by simp, fun b => isSep_of_mem_segment, ?_⟩
    exact .inr ⟨rfl, List.rdropWhile_eq_nil_iff.1 h⟩
  · have hsplit : style.split path =
        ⟨style.trimEnd (style.lead path), style.segment path⟩ := by
      simp [split, h]
    have hlead : style.trimEnd (style.lead path) ++ (style.lead path).rtakeWhile style.isSep =
        style.lead path := List.rdropWhile_append_rtakeWhile
    rw [hsplit]
    refine ⟨(style.lead path).rtakeWhile style.isSep, ?_, ?_, fun b => isSep_of_mem_segment, ?_⟩
    · rw [hlead, hpath]
    · intro b hb
      exact List.mem_rtakeWhile_imp hb
    · refine .inl ⟨?_, needsSep_trimEnd h⟩
      obtain hnil | ⟨l, b, hl, hb⟩ := style.lead_eq_nil_or path
      · simp [hnil, trimEnd] at h
      · rw [hl, List.rtakeWhile_concat_pos _ _ _ hb]
        simp

/-! ## One way to cut -/

theorem lead_append {front tail : Bytes} (h : ∀ b ∈ tail, style.isSep b = false) :
    style.lead (front ++ tail) = style.lead front := by
  induction tail using List.reverseRecOn with
  | nil => rw [List.append_nil]
  | append_singleton tail b ih =>
    have hb : style.isSep b = false := h b (by simp)
    have hlast : style.lead (front ++ tail ++ [b]) = style.lead (front ++ tail) :=
      List.rdropWhile_concat_pos _ _ _ (by simp [hb])
    rw [← List.append_assoc, hlast]
    exact ih fun c hc => h c (by simp [hc])

theorem trimEnd_append {front seps : Bytes} (h : ∀ b ∈ seps, style.isSep b = true) :
    style.trimEnd (front ++ seps) = style.trimEnd front := by
  induction seps using List.reverseRecOn with
  | nil => rw [List.append_nil]
  | append_singleton seps b ih =>
    have hlast : style.trimEnd (front ++ seps ++ [b]) = style.trimEnd (front ++ seps) :=
      List.rdropWhile_concat_pos _ _ _ (h b (by simp))
    rw [← List.append_assoc, hlast]
    exact ih fun c hc => h c (by simp [hc])

/-- What ends in a separator is its own lead. -/
theorem lead_eq_self {path : Bytes} (h : ∀ b ∈ path.getLast?, style.isSep b = true) :
    style.lead path = path := by
  refine List.rdropWhile_eq_self_iff.2 fun hne => ?_
  simp [h _ (List.getLast?_eq_some_getLast hne)]

theorem trimEnd_of_needsSep {path : Bytes} (h : style.needsSep path = true) :
    style.trimEnd path = path := by
  obtain ⟨l, b, rfl, hb⟩ := needsSep_iff.1 h
  exact List.rdropWhile_concat_neg _ _ _ (by simp [hb])

/-- What stands before the last segment ends in a separator. -/
theorem Cut.isSep_last {path seps : Bytes} {parts : Split} (h : style.Cut path seps parts) :
    ∀ b ∈ (parts.head ++ seps).getLast?, style.isSep b = true := by
  intro b hb
  rcases h.head with ⟨hseps, -⟩ | ⟨rfl, hroot⟩
  · rw [List.getLast?_append_of_ne_nil _ hseps] at hb
    exact h.isSep_seps b (List.mem_of_getLast? hb)
  · rw [List.append_nil] at hb
    exact hroot b (List.mem_of_getLast? hb)

/-- A path can be cut in one way only. -/
theorem Cut.split_eq {path seps : Bytes} {parts : Split} (h : style.Cut path seps parts) :
    style.split path = parts := by
  have hlead : style.lead path = parts.head ++ seps := by
    rw [h.path_eq, lead_append h.isSep_tail, lead_eq_self h.isSep_last]
  have hsegment : style.segment path = parts.tail := by
    have hpath := (style.lead_append_segment path).trans h.path_eq
    rw [hlead] at hpath
    exact List.append_cancel_left hpath
  have htrim : style.trimEnd (style.lead path) = style.trimEnd parts.head := by
    rw [hlead, trimEnd_append h.isSep_seps]
  rw [split, htrim, hsegment, hlead]
  rcases h.head with ⟨-, hneeds⟩ | ⟨rfl, hroot⟩
  · have hne : parts.head ≠ [] := by
      rintro hnil
      rw [hnil] at hneeds
      cases hneeds
    rw [trimEnd_of_needsSep hneeds, if_neg (by simpa using hne)]
  · have hnil : style.trimEnd parts.head = [] := List.rdropWhile_eq_nil_iff.2 hroot
    rw [hnil, List.append_nil]
    rfl

/-- The last segment of a path that does not end in a separator is not empty. -/
theorem tail_ne_nil {path : Bytes} (h : style.needsSep path = true) :
    (style.split path).tail ≠ [] := by
  intro htail
  obtain ⟨seps, hcut⟩ := style.split_cut path
  have hpath := hcut.path_eq
  rw [htail, List.append_nil] at hpath
  obtain ⟨l, b, hlast, hb⟩ := needsSep_iff.1 h
  have hsep := hcut.isSep_last b (by rw [← hpath, hlast]; simp)
  rw [hb] at hsep
  cases hsep

/-- A path is split into a directory and a last segment exactly if it is cut into them, and there is
one way only to cut it. -/
theorem split_eq_iff_cut (style : Style) (path : Bytes) :
    (∀ parts, style.split path = parts ↔ ∃ seps, style.Cut path seps parts) ∧
      ∃! cut : Bytes × Split, style.Cut path cut.1 cut.2 := by
  obtain ⟨seps, hcut⟩ := style.split_cut path
  refine ⟨?_, (seps, style.split path), hcut, ?_⟩
  · intro parts
    constructor
    · rintro rfl
      exact ⟨seps, hcut⟩
    · rintro ⟨others, hparts⟩
      exact hparts.split_eq
  · rintro ⟨others, parts⟩ hparts
    obtain rfl := hparts.split_eq
    have hsame : others = seps := by
      have hpath := hparts.path_eq.symm.trans hcut.path_eq
      exact List.append_cancel_left (List.append_cancel_right hpath)
    rw [hsame]

/-! ## Putting together -/

theorem join_of_not_isAbsolute {base component : Bytes}
    (h : style.isAbsolute component = false) :
    style.join base component =
      base ++ ((if style.needsSep base then [style.separator] else []) ++ component) := by
  unfold join
  split
  · simp_all
  · split <;> simp

/-- What is put behind a path leaves the path at its front. -/
theorem take_join {base component : Bytes} (h : style.isAbsolute component = false) :
    (style.join base component).take base.length = base := by
  rw [join_of_not_isAbsolute h, List.take_left]

theorem join_nil_left (path : Bytes) : style.join [] path = path := by
  simp [join, needsSep]

/-- Names are put behind a directory one by one. -/
theorem joinAll_cons (dir : Bytes) (names : List Bytes) :
    style.joinAll (dir :: names) = names.foldl style.join dir := by
  rw [joinAll, List.foldl_cons, join_nil_left]

theorem joinAll_cons_cons (dir name : Bytes) (names : List Bytes) :
    style.joinAll (dir :: name :: names) = style.joinAll (style.join dir name :: names) := by
  rw [joinAll_cons, joinAll_cons, List.foldl_cons]

theorem joinAll_cons_append (dir : Bytes) (names more : List Bytes) :
    style.joinAll (dir :: (names ++ more)) =
      style.joinAll (style.joinAll (dir :: names) :: more) := by
  rw [joinAll_cons, joinAll_cons, joinAll_cons, List.foldl_append]

theorem joinAll_singleton (dir : Bytes) : style.joinAll [dir] = dir := by
  rw [joinAll_cons, List.foldl_nil]

end BuildScript.Path.Style
