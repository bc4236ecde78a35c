import BuildScript.Proofs.Path.Absolute

/-!
# Paths seen from further out

A path that is meant in a directory stands behind the directory when it is seen from further out,
and the empty path is the directory itself. What is put behind the path and what is split off it
are the same from both places.

* `Style.within`: the path from further out;
* `Style.split_join`, `Style.split_within`: splitting the longer path;
* `Style.join_within`: putting a name behind it.
-/

namespace BuildScript.Path.Style

/-! ## Further out -/

/-- A path in a directory, seen from further out. The empty path is the directory itself. -/
def within (style : Style) (dir path : Bytes) : Bytes :=
  if path.isEmpty then dir else style.join dir path

theorem within_nil (style : Style) (dir : Bytes) : style.within dir [] = dir := rfl

theorem within_of_ne_nil {style : Style} {dir path : Bytes} (h : path ≠ []) :
    style.within dir path = style.join dir path :=
  if_neg (by simpa using h)

/-- The directory part of a path is a root or ends in something else than a separator. -/
theorem dirname_cases (style : Style) (path : Bytes) :
    style.needsSep (style.dirname path) = true ∨
      ∀ b ∈ style.dirname path, style.isSep b = true := by
  obtain ⟨seps, hcut⟩ := style.split_cut path
  rcases hcut.head with ⟨-, hneeds⟩ | ⟨-, hroot⟩
  · exact .inl hneeds
  · exact .inr hroot

section Relative

variable {dir path name : Bytes}

theorem isAbsolute_append (h : path ≠ []) (more : Bytes) :
    posix.isAbsolute (path ++ more) = posix.isAbsolute path := by
  obtain ⟨b, rest, rfl⟩ := List.exists_cons_of_ne_nil h
  simp [isAbsolute]

/-- The directory part of a relative path is relative. -/
theorem isAbsolute_head (hpath : posix.isAbsolute path = false) :
    posix.isAbsolute (posix.split path).head = false := by
  rw [← Bool.not_eq_true] at hpath ⊢
  exact fun hhead => hpath ((isAbsolute_dirname_iff posix path).1 hhead).1

theorem isAbsolute_join (hpath : posix.isAbsolute path = false)
    (hname : posix.isAbsolute name = false) : posix.isAbsolute (posix.join path name) = false := by
  rw [← Bool.not_eq_true, isAbsolute_join_iff, hpath, hname]
  rintro (h | h | ⟨h, -⟩) <;> cases h

/-- Seen from further out the path is still at the end. -/
theorem within_eq (hpath : posix.isAbsolute path = false) (hne : path ≠ []) :
    posix.within dir path =
      dir ++ ((if posix.needsSep dir then [posix.separator] else []) ++ path) := by
  rw [within_of_ne_nil hne, join_of_not_isAbsolute hpath]

theorem within_startsWith (hpath : posix.isAbsolute path = false) :
    dir <+: posix.within dir path := by
  by_cases hne : path = []
  · subst hne
    exact List.prefix_rfl
  · rw [within_eq hpath hne]
    exact List.prefix_append _ _

theorem needsSep_within (hpath : posix.isAbsolute path = false) (hne : path ≠ []) :
    posix.needsSep (posix.within dir path) = posix.needsSep path := by
  rw [within_eq hpath hne, ← List.append_assoc, needsSep_append _ hne]

theorem words_within (hpath : posix.isAbsolute path = false) :
    posix.words (posix.within dir path) = posix.words dir ++ posix.words path := by
  by_cases hne : path = []
  · rw [hne, within_nil, words_nil, List.append_nil]
  rw [within_eq hpath hne, words_behind]

/-- A name is put behind the longer path as it is put behind the path. -/
theorem join_within (hpath : posix.isAbsolute path = false) (hname : posix.isAbsolute name = false)
    (hne : name ≠ []) :
    posix.join (posix.within dir path) name = posix.within dir (posix.join path name) := by
  by_cases hnil : path = []
  · rw [hnil, within_nil, join_nil_left, within_of_ne_nil hne]
  · have hjoin : posix.join path name ≠ [] := by
      rw [join_of_not_isAbsolute hname]
      simp [hnil]
    rw [join_of_not_isAbsolute hname, needsSep_within hpath hnil, within_eq hpath hnil,
      within_eq (isAbsolute_join hpath hname) hjoin, join_of_not_isAbsolute hname]
    simp

/-- A segment behind a directory is split off again. -/
theorem split_join (hdir : posix.needsSep dir = true ∨ ∀ b ∈ dir, posix.isSep b = true)
    (hname : ∀ b ∈ name, posix.isSep b = false) :
    posix.split (posix.join dir name) = ⟨dir, name⟩ := by
  have habs := isAbsolute_segment hname
  suffices hcut : posix.Cut (posix.join dir name)
      (if posix.needsSep dir then [posix.separator] else []) ⟨dir, name⟩ from hcut.split_eq
  refine ⟨?_, ?_, hname, ?_⟩
  · rw [join_of_not_isAbsolute habs, List.append_assoc]
  · intro b hb
    split at hb
    · obtain rfl := List.mem_singleton.1 hb
      exact isSep_separator posix
    · cases hb
  · by_cases hneeds : posix.needsSep dir = true
    · exact .inl ⟨by simp [hneeds], hneeds⟩
    · exact .inr ⟨by simp [hneeds], hdir.resolve_left hneeds⟩

/-- The longer path splits where the path does. -/
theorem split_within
    (hdir : posix.needsSep dir = true ∨ ∀ b ∈ dir, posix.isSep b = true)
    (hpath : posix.isAbsolute path = false) (hne : path ≠ []) :
    posix.split (posix.within dir path) =
      ⟨posix.within dir (posix.split path).head, (posix.split path).tail⟩ := by
  obtain ⟨seps, hcut⟩ := posix.split_cut path
  by_cases hhead : (posix.split path).head = []
  · -- the last segment is all of the path, and the directory comes right before it
    obtain ⟨-, hneeds⟩ | ⟨rfl, -⟩ := hcut.head
    · rw [hhead] at hneeds
      cases hneeds
    · have htail : (posix.split path).tail = path := by
        simpa [hhead] using hcut.path_eq.symm
      have hsegment := hcut.isSep_tail
      rw [htail] at hsegment ⊢
      rw [hhead, within_nil, within_of_ne_nil hne, split_join hdir hsegment]
  · have hrelative := isAbsolute_head hpath
    have hends : seps ≠ [] ∧ posix.needsSep (posix.split path).head = true := by
      refine hcut.head.resolve_right fun hroot => ?_
      obtain ⟨b, rest, hcons⟩ := List.exists_cons_of_ne_nil hhead
      have hb := hroot.2 b (by simp [hcons])
      simp [hcons, isAbsolute, hb] at hrelative
    suffices hlonger : posix.Cut (posix.within dir path) seps
        ⟨posix.within dir (posix.split path).head, (posix.split path).tail⟩ from hlonger.split_eq
    refine ⟨?_, hcut.isSep_seps, hcut.isSep_tail, .inl ⟨hends.1, ?_⟩⟩
    · rw [within_eq hpath hne, within_eq hrelative hhead]
      conv_lhs => rw [hcut.path_eq]
      simp
    · rw [needsSep_within hrelative hhead]
      exact hends.2

end Relative

end BuildScript.Path.Style
