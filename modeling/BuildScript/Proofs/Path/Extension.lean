import BuildScript.Proofs.Path.Split

/-!
# Roots and extensions

The last segment of a path is the dots it begins with, a stem and an extension, one behind the
other. Where there is no stem there is no extension, and a path has only one stem and one
extension in this way. So the extension can be replaced by any other one as soon as there is a
stem.

* `Style.IsExtension`: what can be an extension;
* `Style.Parted`: a path in these parts;
* `Style.exists_parted`, `Style.Parted.splitExtension_eq`: there is one way to part a path;
* `Style.splitExtension_replace`: the main result.
-/

namespace BuildScript.Path.Style

variable {style : Style}

/-- What can be an extension: nothing, or a dot and more bytes, none of them a separator. -/
def IsExtension (style : Style) (ext : Bytes) : Prop :=
  ext = [] ∨ ext.head? = some dot ∧ ∀ b ∈ ext, style.isSep b = false

/-- A path in parts: what stands before its last segment, the dots the segment begins with, its
stem and its extension. -/
structure Parted (style : Style) (path lead dots stem ext : Bytes) : Prop where
  path_eq : path = lead ++ (dots ++ (stem ++ ext))
  isSep_last : ∀ b ∈ lead.getLast?, style.isSep b = true
  eq_dot : ∀ b ∈ dots, b = dot
  ne_dot : ∀ b ∈ stem, b ≠ dot
  isSep_stem : ∀ b ∈ stem, style.isSep b = false
  isExtension : style.IsExtension ext
  ext_eq_nil : stem = [] → ext = []

theorem isSep_dot (style : Style) : style.isSep dot = false := by
  cases style <;> rfl

theorem IsExtension.isSep_of_mem {ext : Bytes} (h : style.IsExtension ext) :
    ∀ b ∈ ext, style.isSep b = false := by
  obtain rfl | ⟨-, hsep⟩ := h
  · simp
  · exact hsep

theorem IsExtension.takeWhile_eq_nil {ext : Bytes} (h : style.IsExtension ext) :
    ext.takeWhile (· != dot) = [] := by
  obtain rfl | ⟨hhead, -⟩ := h
  · rfl
  · obtain ⟨rest, rfl⟩ := List.head?_eq_some_iff.1 hhead
    rfl

theorem IsExtension.dropWhile_eq_self {ext : Bytes} (h : style.IsExtension ext) :
    ext.dropWhile (· != dot) = ext := by
  obtain rfl | ⟨hhead, -⟩ := h
  · rfl
  · obtain ⟨rest, rfl⟩ := List.head?_eq_some_iff.1 hhead
    rfl

/-- What is behind the first dots of a name has a stem unless nothing is there. -/
theorem eq_nil_of_takeWhile_eq_nil {name : Bytes}
    (h : (name.dropWhile (· == dot)).takeWhile (· != dot) = []) :
    name.dropWhile (· == dot) = [] := by
  cases hrest : name.dropWhile (· == dot) with
  | nil => rfl
  | cons b rest =>
    have hb := List.head?_dropWhile_not (· == dot) name
    rw [hrest] at h hb
    rw [List.takeWhile_cons_of_pos (by simpa using hb)] at h
    cases h

/-- Every path can be parted. -/
theorem exists_parted (style : Style) (path : Bytes) :
    ∃ lead dots stem ext, style.Parted path lead dots stem ext := by
  have hrest : ∀ b ∈ (style.segment path).dropWhile (· == dot), style.isSep b = false := fun b hb =>
    isSep_of_mem_segment ((List.dropWhile_suffix _).subset hb)
  refine ⟨style.lead path, (style.segment path).takeWhile (· == dot),
    ((style.segment path).dropWhile (· == dot)).takeWhile (· != dot),
    ((style.segment path).dropWhile (· == dot)).dropWhile (· != dot), ?_⟩
  constructor
  case path_eq =>
    rw [List.takeWhile_append_dropWhile, List.takeWhile_append_dropWhile, lead_append_segment]
  case isSep_last =>
    intro b hb
    obtain hnil | ⟨l, c, hl, hc⟩ := style.lead_eq_nil_or path
    · simp [hnil] at hb
    · obtain rfl : c = b := by simpa [hl] using hb
      exact hc
  case eq_dot => exact fun b hb => by simpa using List.mem_takeWhile_imp hb
  case ne_dot => exact fun b hb => by simpa using List.mem_takeWhile_imp hb
  case isSep_stem => exact fun b hb => hrest b ((List.takeWhile_prefix _).subset hb)
  case isExtension =>
    have hhead := List.head?_dropWhile_not (· != dot) ((style.segment path).dropWhile (· == dot))
    have hsep : ∀ b ∈ ((style.segment path).dropWhile (· == dot)).dropWhile (· != dot),
        style.isSep b = false := fun b hb => hrest b ((List.dropWhile_suffix _).subset hb)
    generalize ((style.segment path).dropWhile (· == dot)).dropWhile (· != dot) = ext at hhead hsep
    cases ext with
    | nil => exact .inl rfl
    | cons b ext => exact .inr ⟨by simpa using hhead, hsep⟩
  case ext_eq_nil =>
    intro hstem
    rw [eq_nil_of_takeWhile_eq_nil hstem]
    rfl

namespace Parted

variable {path lead dots stem ext : Bytes}

theorem isSep_name (h : style.Parted path lead dots stem ext) :
    ∀ b ∈ dots ++ (stem ++ ext), style.isSep b = false := by
  intro b hb
  obtain hb | hb | hb : b ∈ dots ∨ b ∈ stem ∨ b ∈ ext := by simpa using hb
  · rw [h.eq_dot b hb, isSep_dot]
  · exact h.isSep_stem b hb
  · exact h.isExtension.isSep_of_mem b hb

theorem lead_eq (h : style.Parted path lead dots stem ext) : style.lead path = lead := by
  rw [h.path_eq, lead_append h.isSep_name, lead_eq_self h.isSep_last]

theorem basename_eq (h : style.Parted path lead dots stem ext) :
    style.basename path = dots ++ (stem ++ ext) := by
  have hpath := (style.lead_append_segment path).trans h.path_eq
  rw [h.lead_eq] at hpath
  exact List.append_cancel_left hpath

/-- The dots of the name end where the stem begins, or with the name. -/
theorem takeWhile_stem (h : style.Parted path lead dots stem ext) :
    (stem ++ ext).takeWhile (· == dot) = [] := by
  cases hstem : stem with
  | nil => rw [h.ext_eq_nil hstem]; rfl
  | cons b stem =>
    have hb := h.ne_dot b (by simp [hstem])
    rw [List.cons_append, List.takeWhile_cons_of_neg (by simpa using hb)]

theorem dropWhile_stem (h : style.Parted path lead dots stem ext) :
    (stem ++ ext).dropWhile (· == dot) = stem ++ ext := by
  conv_rhs => rw [← List.takeWhile_append_dropWhile (p := (· == dot)) (l := stem ++ ext),
    h.takeWhile_stem, List.nil_append]

/-- There is one way only to part a path. -/
theorem splitExtension_eq (h : style.Parted path lead dots stem ext) :
    style.splitExtension path = ⟨lead ++ (dots ++ stem), ext⟩ := by
  have hdots : ∀ b ∈ dots, (b == dot) = true := fun b hb => by simpa using h.eq_dot b hb
  have hstem : ∀ b ∈ stem, (b != dot) = true := fun b hb => by simpa using h.ne_dot b hb
  have hname : style.segment path = dots ++ (stem ++ ext) := h.basename_eq
  have hrest : (dots ++ (stem ++ ext)).dropWhile (· == dot) = stem ++ ext := by
    rw [List.dropWhile_append_of_pos hdots, h.dropWhile_stem]
  rw [splitExtension, hname, h.lead_eq, hrest, List.takeWhile_append_of_pos hdots,
    h.takeWhile_stem, List.takeWhile_append_of_pos hstem, h.isExtension.takeWhile_eq_nil,
    List.dropWhile_append_of_pos hstem, h.isExtension.dropWhile_eq_self]
  simp only [List.append_nil, List.append_assoc]

/-- What is left without the extension. -/
theorem root (h : style.Parted path lead dots stem ext) :
    style.Parted (lead ++ (dots ++ stem)) lead dots stem [] :=
  { h with
    path_eq := by rw [List.append_nil]
    isExtension := .inl rfl
    ext_eq_nil := fun _ => rfl }

theorem name (h : style.Parted path lead dots stem ext) :
    style.Parted (style.basename path) [] dots stem ext :=
  { h with
    path_eq := h.basename_eq
    isSep_last := by simp }

/-- Another extension. -/
theorem replace (h : style.Parted path lead dots stem ext) (hstem : stem ≠ []) {other : Bytes}
    (hother : style.IsExtension other) :
    style.Parted (lead ++ (dots ++ stem) ++ other) lead dots stem other :=
  { h with
    path_eq := by simp only [List.append_assoc]
    isExtension := hother
    ext_eq_nil := fun hnil => absurd hnil hstem }

end Parted

/-- The root and the extension of a path are its parts, the extension is that of its last segment,
and the root has none. Where the last segment of the root is more than dots, any extension can be
put behind the root and is split off again; where it is not, the path has no extension. -/
theorem splitExtension_replace (style : Style) (path root ext : Bytes)
    (h : style.splitExtension path = ⟨root, ext⟩) :
    root ++ ext = path ∧ style.IsExtension ext ∧
      ext = style.extension (style.basename path) ∧
      style.splitExtension root = ⟨root, []⟩ ∧
      ((∃ b ∈ style.basename root, b ≠ dot) → ∀ other, style.IsExtension other →
        style.splitExtension (root ++ other) = ⟨root, other⟩) ∧
      ((∀ b ∈ style.basename root, b = dot) → ext = []) := by
  obtain ⟨lead, dots, stem, others, hparts⟩ := style.exists_parted path
  obtain ⟨rfl, rfl⟩ : lead ++ (dots ++ stem) = root ∧ others = ext := by
    simpa [hparts.splitExtension_eq] using h
  refine ⟨?_, hparts.isExtension, ?_, hparts.root.splitExtension_eq, ?_, ?_⟩
  · rw [hparts.path_eq]
    simp only [List.append_assoc]
  · rw [extension, hparts.name.splitExtension_eq]
  · rintro ⟨b, hb, hdot⟩ other hother
    have hstem : stem ≠ [] := by
      rintro rfl
      rw [hparts.root.basename_eq] at hb
      exact hdot (hparts.eq_dot b (by simpa using hb))
    exact (hparts.replace hstem hother).splitExtension_eq
  · intro hdots
    refine hparts.ext_eq_nil (List.eq_nil_iff_forall_not_mem.2 fun b hb => ?_)
    rw [hparts.root.basename_eq] at hdots
    exact hparts.ne_dot b hb (hdots b (by simp [hb]))

/-- A path with a dot in its directory and dots in front of its name, without the extension. -/
def dottedRoot : Bytes := Bytes.ofAscii "d.x\\..a"

theorem splitExtension_replace_dottedRoot :
    windows.splitExtension (dottedRoot ++ Bytes.ofAscii ".tar.gz") =
      ⟨dottedRoot, Bytes.ofAscii ".tar.gz"⟩ ∧
    (∃ b ∈ windows.basename dottedRoot, b ≠ dot) ∧ windows.IsExtension (Bytes.ofAscii ".o") ∧
    windows.splitExtension (dottedRoot ++ Bytes.ofAscii ".o") =
      ⟨dottedRoot, Bytes.ofAscii ".o"⟩ ∧
    (∀ b ∈ windows.basename (windows.splitExtension [dot, dot]).head, b = dot) ∧
    windows.extension [dot, dot] = [] := by
  have hsplit : windows.splitExtension (dottedRoot ++ Bytes.ofAscii ".tar.gz") =
      ⟨dottedRoot, Bytes.ofAscii ".tar.gz"⟩ := by decide +kernel
  have hstem : ∃ b ∈ windows.basename dottedRoot, b ≠ dot := by decide +kernel
  have hobject : windows.IsExtension (Bytes.ofAscii ".o") := .inr (by decide +kernel)
  have hdots : ∀ b ∈ windows.basename (windows.splitExtension [dot, dot]).head, b = dot := by
    decide +kernel
  obtain ⟨-, -, -, -, hreplace, -⟩ := splitExtension_replace _ _ _ _ hsplit
  obtain ⟨-, -, -, -, -, hnone⟩ := splitExtension_replace windows [dot, dot] _ _ rfl
  exact ⟨hsplit, hstem, hobject, hreplace hstem _ hobject, hdots, hnone hdots⟩

end BuildScript.Path.Style
