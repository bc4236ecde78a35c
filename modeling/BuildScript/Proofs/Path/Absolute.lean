import BuildScript.Proofs.Path.Words

/-!
# Absolute paths

A path is absolute if what comes before its first separator is nothing or a drive. A drive with no
separator behind it is relative, so it becomes absolute where `join` puts a separator behind it, and
a path in the root of a drive has a relative directory: `split` takes the separator away.

* `Style.IsDrive`: a byte and a colon;
* `Style.isAbsolute_iff`: what an absolute path begins with;
* `Style.isAbsolute_append_sep`: what a separator behind a path changes;
* `Style.isAbsolute_join_iff`, `Style.isAbsolute_dirname_iff`: joins and directories;
* `Style.absolute_dirname_join`, `Style.join_assoc_iff`: the main results.
-/

namespace BuildScript.Path.Style

variable {style : Style}

/-- A drive, of the style that has drives: a byte that does not separate, and a colon. -/
def IsDrive (style : Style) (path : Bytes) : Prop :=
  style = windows ∧ ∃ letter, style.isSep letter = false ∧ path = [letter, colon]

/-! ## What a path begins with -/

theorem isSep_colon (style : Style) : style.isSep colon = false := by
  cases style <;> rfl

namespace IsDrive

variable {drive : Bytes}

theorem isSep_of_mem (h : style.IsDrive drive) : ∀ b ∈ drive, style.isSep b = false := by
  obtain ⟨-, letter, hletter, rfl⟩ := h
  intro b hb
  obtain rfl | rfl : b = letter ∨ b = colon := by simpa using hb
  · exact hletter
  · exact isSep_colon style

theorem needsSep (h : style.IsDrive drive) : style.needsSep drive = true := by
  obtain ⟨-, letter, -, rfl⟩ := h
  exact needsSep_iff.2 ⟨[letter], colon, rfl, isSep_colon style⟩

end IsDrive

/-- Nothing has to be put between a root and what follows. -/
theorem needsSep_root {root : Bytes} (h : ∀ b ∈ root, style.isSep b = true) :
    style.needsSep root = false := by
  rw [← Bool.not_eq_true, needsSep_iff]
  rintro ⟨l, b, rfl, hb⟩
  rw [h b (by simp)] at hb
  cases hb

/-- A path is absolute exactly if nothing or a drive comes before its first separator. -/
theorem isAbsolute_iff {path : Bytes} : style.isAbsolute path = true ↔
    ∃ front sep rest, (front = [] ∨ style.IsDrive front) ∧ style.isSep sep = true ∧
      path = front ++ sep :: rest := by
  constructor
  · intro h
    match path with
    | a :: rest =>
      by_cases ha : style.isSep a = true
      · exact ⟨[], a, rest, .inl rfl, ha, rfl⟩
      · match style, rest with
        | windows, b :: c :: rest =>
          obtain ⟨rfl, hc⟩ : b = colon ∧ windows.isSep c = true := by
            simpa [isAbsolute, ha] using h
          exact ⟨[a, colon], c, rest, .inr ⟨rfl, a, by simpa using ha, rfl⟩, hc, rfl⟩
        | windows, [] | windows, [b] | posix, rest => simp [isAbsolute, ha] at h
  · rintro ⟨front, sep, rest, rfl | ⟨rfl, letter, -, rfl⟩, hsep, rfl⟩
    · simp [isAbsolute, hsep]
    · simp [isAbsolute, hsep]

/-- A path without separators is relative. -/
theorem isAbsolute_segment {path : Bytes} (h : ∀ b ∈ path, style.isSep b = false) :
    style.isAbsolute path = false := by
  rw [← Bool.not_eq_true, isAbsolute_iff]
  rintro ⟨front, sep, rest, -, hsep, rfl⟩
  rw [h sep (by simp)] at hsep
  cases hsep

theorem IsDrive.isAbsolute {drive : Bytes} (h : style.IsDrive drive) :
    style.isAbsolute drive = false :=
  isAbsolute_segment h.isSep_of_mem

/-! ## A separator behind a path -/

/-- With a separator behind it, a path is absolute if it was, if it is a drive, and if nothing is
there. -/
theorem isAbsolute_append_sep {path : Bytes} {sep : UInt8} (hsep : style.isSep sep = true)
    (more : Bytes) : style.isAbsolute (path ++ sep :: more) = true ↔
      path = [] ∨ style.isAbsolute path = true ∨ style.IsDrive path := by
  constructor
  · intro h
    obtain ⟨front, first, rest, hfront, hfirst, heq⟩ := isAbsolute_iff.1 h
    obtain ⟨others, rfl, hothers⟩ | ⟨others, rfl, hothers⟩ := List.append_eq_append_iff.1 heq
    · -- the separator behind the path is the first one, so the path is what comes before it
      cases others with
      | nil => exact hfront.imp (by simp) fun hdrive => .inr (by simpa using hdrive)
      | cons b others =>
        obtain rfl : sep = b := by simpa using (List.cons.inj hothers).1
        obtain hnil | hdrive := hfront
        · simp at hnil
        · rw [hdrive.isSep_of_mem sep (by simp)] at hsep
          cases hsep
    · cases others with
      | nil => exact hfront.imp (by simp) fun hdrive => .inr (by simpa using hdrive)
      | cons b others =>
        obtain rfl : first = b := by simpa using (List.cons.inj hothers).1
        exact .inr (.inl (isAbsolute_iff.2 ⟨front, first, others, hfront, hfirst, rfl⟩))
  · rintro (rfl | habs | hdrive)
    · exact isAbsolute_iff.2 ⟨[], sep, more, .inl rfl, hsep, rfl⟩
    · obtain ⟨front, first, rest, hfront, hfirst, rfl⟩ := isAbsolute_iff.1 habs
      exact isAbsolute_iff.2 ⟨front, first, rest ++ sep :: more, hfront, hfirst, by simp⟩
    · exact isAbsolute_iff.2 ⟨path, sep, more, .inr hdrive, hsep, rfl⟩

/-- The same of a path that ends in something else than a separator, and so is not empty. -/
theorem isAbsolute_needsSep_append {path : Bytes} {sep : UInt8} (h : style.needsSep path = true)
    (hsep : style.isSep sep = true) (more : Bytes) :
    style.isAbsolute (path ++ sep :: more) = true ↔
      style.isAbsolute path = true ∨ style.IsDrive path := by
  have hne : path ≠ [] := by
    rintro rfl
    cases h
  rw [isAbsolute_append_sep hsep, or_iff_right hne]

/-! ## Joins -/

theorem join_of_isAbsolute {component : Bytes} (h : style.isAbsolute component = true)
    (base : Bytes) : style.join base component = component :=
  if_pos h

/-- A join is absolute exactly if one of the two paths is, or a drive gets its separator. -/
theorem isAbsolute_join_iff (style : Style) (base component : Bytes) :
    style.isAbsolute (style.join base component) = true ↔
      style.isAbsolute component = true ∨ style.isAbsolute base = true ∨ style.IsDrive base := by
  by_cases habs : style.isAbsolute component = true
  · simp [join_of_isAbsolute habs, habs]
  rw [join_of_not_isAbsolute (by simpa using habs), or_iff_right habs]
  by_cases hneeds : style.needsSep base = true
  · rw [if_pos hneeds, List.singleton_append]
    exact isAbsolute_needsSep_append hneeds (isSep_separator style) component
  · have hdrive : ¬style.IsDrive base := fun hdrive => hneeds hdrive.needsSep
    rw [if_neg hneeds, List.nil_append, or_iff_left hdrive]
    obtain rfl | ⟨l, b, rfl, hb⟩ := needsSep_eq_false_iff.1 (Bool.not_eq_true _ ▸ hneeds)
    · simpa [isAbsolute] using habs
    · rw [List.append_assoc, List.singleton_append, isAbsolute_append_sep hb,
        isAbsolute_append_sep hb]

theorem needsSep_append (front : Bytes) {path : Bytes} (h : path ≠ []) :
    style.needsSep (front ++ path) = style.needsSep path := by
  rw [needsSep, List.getLast?_append_of_ne_nil _ h, needsSep]

/-- Whether a join needs a separator behind it is told by what was put behind. -/
theorem needsSep_join {base component : Bytes} (h : style.isAbsolute component = false) :
    style.needsSep (style.join base component) = style.needsSep component := by
  rw [join_of_not_isAbsolute h, ← List.append_assoc]
  by_cases hne : component = []
  · subst hne
    rw [List.append_nil]
    by_cases hneeds : style.needsSep base = true
    · rw [if_pos hneeds, needsSep_append base (List.cons_ne_nil _ _)]
      simp [needsSep, isSep_separator]
    · rw [if_neg hneeds, List.append_nil]
      simpa [needsSep] using hneeds
  · exact needsSep_append _ hne

theorem join_eq_component_iff {base component : Bytes} (h : style.isAbsolute component = false) :
    style.join base component = component ↔ base = [] := by
  rw [join_of_not_isAbsolute h, ← List.append_assoc, List.append_left_eq_self]
  exact ⟨fun heq => (List.append_eq_nil_iff.1 heq).1, fun heq => by simp [heq, needsSep]⟩

/-! ## Directories -/

/-- What stands right in the root of a drive, and the root itself. -/
def InDriveRoot (style : Style) (path : Bytes) : Prop :=
  ∃ drive seps rest, style.IsDrive drive ∧ seps ≠ [] ∧ (∀ b ∈ seps, style.isSep b = true) ∧
    (∀ b ∈ rest, style.isSep b = false) ∧ path = drive ++ seps ++ rest

/-- These are the paths whose directory is a drive. -/
theorem inDriveRoot_iff {path : Bytes} :
    style.InDriveRoot path ↔ style.IsDrive (style.dirname path) := by
  constructor
  · rintro ⟨drive, seps, rest, hdrive, hne, hseps, hrest, heq⟩
    have hcut : style.Cut path seps ⟨drive, rest⟩ :=
      ⟨heq, hseps, hrest, .inl ⟨hne, hdrive.needsSep⟩⟩
    rw [dirname, hcut.split_eq]
    exact hdrive
  · intro hdrive
    obtain ⟨seps, hcut⟩ := style.split_cut path
    obtain ⟨hne, -⟩ | ⟨-, hroot⟩ := hcut.head
    · exact ⟨_, seps, _, hdrive, hne, hcut.isSep_seps, hcut.isSep_tail, hcut.path_eq⟩
    · exact absurd hdrive.needsSep (by simp [dirname, needsSep_root hroot])

/-- The directory of a path is absolute exactly if the path is, and the directory is not a drive
that has lost its separator. -/
theorem isAbsolute_dirname_iff (style : Style) (path : Bytes) :
    style.isAbsolute (style.dirname path) = true ↔
      style.isAbsolute path = true ∧ ¬style.InDriveRoot path := by
  rw [inDriveRoot_iff]
  have hdrive (h : style.IsDrive (style.dirname path)) :
      ¬style.isAbsolute (style.dirname path) = true := by simp [h.isAbsolute]
  obtain ⟨seps, hcut⟩ := style.split_cut path
  have hpath : path = style.dirname path ++ seps ++ style.basename path := hcut.path_eq
  rcases hcut.head with ⟨hne, hneeds⟩ | ⟨rfl, hroot⟩
  · obtain ⟨sep, more, rfl⟩ := List.exists_cons_of_ne_nil hne
    have hsep : style.isSep sep = true := hcut.isSep_seps sep List.mem_cons_self
    have habs : style.isAbsolute path = true ↔
        style.isAbsolute (style.dirname path) = true ∨ style.IsDrive (style.dirname path) := by
      conv_lhs => rw [hpath, List.append_assoc, List.cons_append]
      exact isAbsolute_needsSep_append hneeds hsep _
    tauto
  · have hno : ¬style.IsDrive (style.dirname path) := fun h =>
      absurd h.needsSep (by simp [dirname, needsSep_root hroot])
    rw [and_iff_left hno]
    cases hdir : style.dirname path with
    | nil =>
      -- there is no separator at all
      have hsegment : path = style.basename path := by simpa [hdir] using hpath
      have hname : style.isAbsolute (style.basename path) = false :=
        isAbsolute_segment hcut.isSep_tail
      rw [hsegment, hname]
      rfl
    | cons b root =>
      have hb : style.isSep b = true := hroot b (by rw [← dirname, hdir]; simp)
      have habs (more : Bytes) : style.isAbsolute (b :: more) = true :=
        isAbsolute_iff.2 ⟨[], b, more, .inl rfl, hb, rfl⟩
      rw [hpath, hdir, List.append_nil, List.cons_append, habs, habs]

/-- Directories and joins are absolute exactly where the paths they are made from are, except that a
drive loses its separator as a directory and gets one as the front of a join. -/
theorem absolute_dirname_join (style : Style) (path base component : Bytes) :
    (style.isAbsolute (style.dirname path) = true ↔
      style.isAbsolute path = true ∧ ¬style.InDriveRoot path) ∧
    (style.isAbsolute (style.join base component) = true ↔
      style.isAbsolute component = true ∨ style.isAbsolute base = true ∨ style.IsDrive base) :=
  ⟨isAbsolute_dirname_iff style path, isAbsolute_join_iff style base component⟩

/-! ## Three paths -/

theorem join_assoc_of_relative {a b c : Bytes} (hb : style.isAbsolute b = false)
    (hc : style.isAbsolute c = false) (hbc : style.isAbsolute (style.join b c) = false) :
    style.join (style.join a b) c = style.join a (style.join b c) := by
  rw [join_of_not_isAbsolute hc, needsSep_join hb, join_of_not_isAbsolute hbc,
    join_of_not_isAbsolute hb, join_of_not_isAbsolute hc]
  simp only [List.append_assoc]

/-- Of three paths behind one another, it does not matter which two are joined first, unless the
one in the middle is a drive with something before it and a relative path behind it. If the last
two are joined first, the drive gets its separator and what comes before it is dropped. -/
theorem join_assoc_iff (style : Style) (a b c : Bytes) :
    style.join (style.join a b) c = style.join a (style.join b c) ↔
      ¬(a ≠ [] ∧ style.IsDrive b ∧ style.isAbsolute c = false) := by
  by_cases hc : style.isAbsolute c = true
  · simp [join_of_isAbsolute hc, hc]
  rw [Bool.not_eq_true] at hc
  by_cases hb : style.isAbsolute b = true
  · have hdrive : ¬style.IsDrive b := fun hdrive => by simp [hdrive.isAbsolute] at hb
    have hbc := (isAbsolute_join_iff style b c).2 (.inr (.inl hb))
    simp [join_of_isAbsolute hb, join_of_isAbsolute hbc, hdrive]
  rw [Bool.not_eq_true] at hb
  by_cases hdrive : style.IsDrive b
  · have hbc := (isAbsolute_join_iff style b c).2 (.inr (.inr hdrive))
    have hsame : style.join (style.join a b) c = style.join b c ↔ a = [] := by
      rw [join_of_not_isAbsolute hc, needsSep_join hb, join_of_not_isAbsolute hc,
        List.append_left_inj, join_eq_component_iff hb]
    rw [join_of_isAbsolute hbc, hsame]
    simp [hdrive, hc]
  · have hbc : style.isAbsolute (style.join b c) = false := by
      rw [← Bool.not_eq_true, isAbsolute_join_iff]
      simp [hc, hb, hdrive]
    simp [join_assoc_of_relative hb hc hbc, hdrive]

example : windows.joinAll [Bytes.ofAscii "a", Bytes.ofAscii "C:", Bytes.ofAscii "b"] =
      Bytes.ofAscii "a\\C:\\b" ∧
    windows.join (Bytes.ofAscii "a") (windows.join (Bytes.ofAscii "C:") (Bytes.ofAscii "b")) =
      Bytes.ofAscii "C:\\b" := by decide

end BuildScript.Path.Style
