import BuildScript.Proofs.Files.Resolution
import BuildScript.Proofs.Path.Within

/-!
# Paths in a directory

A path seen from further out leads where the path leads in the directory. Only the limits of the
system can tell the two apart: from further out the path is longer, and it leads through the links
on the way to the directory as well.

* `FileSystem.inside`: the file system with the directory as the current one;
* `FileSystem.WithinLimits`: a path that the limits do not keep from being looked at;
* `FileSystem.lookup_within`, `FileSystem.list_within`: what a path leads to from both places.
-/

namespace BuildScript.Files

open BuildScript.Path

namespace FileSystem

/-- The file system with another current directory. -/
def inside (fs : FileSystem) (loc : Location) : FileSystem := { fs with cwd := loc }

@[simp] theorem root_inside (fs : FileSystem) (loc : Location) :
    (fs.inside loc).root = fs.root := rfl

/-- A path that is neither too long nor leads through too many links. -/
structure WithinLimits (fs : FileSystem) (path : Bytes) : Prop where
  length : path.length ≤ maxPath
  links : fs.locate path ≠ .error .tooManyLinks

end FileSystem

/-! ## Names of paths -/

section Names

variable {dir path : Bytes}

theorem steps_within (hpath : Style.posix.isAbsolute path = false) (hne : path ≠ []) :
    steps (Style.posix.within dir path) = names dir ++ steps path := by
  have hdir : asksForDir (Style.posix.within dir path) = asksForDir path := by
    rw [asksForDir, Style.within_eq hpath hne, ← List.append_assoc,
      List.getLast?_append_of_ne_nil _ hne, asksForDir]
  rw [steps, steps, hdir, names_eq_words, names_eq_words, names_eq_words,
    Style.words_within hpath, List.append_assoc]

theorem start_within (hpath : Style.posix.isAbsolute path = false) (base : Location) :
    FileSystem.start (Style.posix.within dir path) base = FileSystem.start dir base := by
  have habs : isAbsolute (Style.posix.within dir path) = isAbsolute dir := by
    rw [isAbsolute_eq, isAbsolute_eq]
    by_cases hne : path = []
    · rw [hne, Style.within_nil]
    rw [Style.within_eq hpath hne]
    by_cases hdir : dir = []
    · rw [hdir]
      exact hpath
    · exact Style.isAbsolute_append hdir _
  rw [FileSystem.start, FileSystem.start, habs]

/-- Only its length can make a path unfit that is fit in a directory. -/
theorem refused?_within (hdir : FileSystem.refused? (Glob.listingPath dir) = none)
    (hpath : Style.posix.isAbsolute path = false) (hne : path ≠ [])
    (hlength : (Style.posix.within dir path).length ≤ maxPath) :
    FileSystem.refused? (Style.posix.within dir path) = FileSystem.refused? path := by
  have hnul : (0 : UInt8) ∉ dir := by
    intro hmem
    rw [listingPath_of_ne_nil (List.ne_nil_of_mem hmem), FileSystem.refused?,
      if_pos (by simpa using hmem)] at hdir
    cases hdir
  rw [Style.within_eq hpath hne] at hlength ⊢
  have hcontains : (dir ++ ((if Style.posix.needsSep dir then [Style.posix.separator] else []) ++
      path)).contains 0 = path.contains 0 := by
    have hsep : (0 : UInt8) ≠ Style.posix.separator := by decide
    split <;> simp [hnul, hsep]
  have hshort : ¬ maxPath < path.length := by
    simp only [List.length_append] at hlength
    omega
  rw [FileSystem.refused?, FileSystem.refused?, hcontains, if_neg (Nat.not_lt.2 hlength),
    if_neg hshort]
  simp [hne]

end Names

/-! ## From both places -/

namespace FileSystem

variable {fs : FileSystem}

theorem withinLimits_of_lookup {path : Bytes} {found : Location × Node}
    (h : fs.lookup path = .ok found) : fs.WithinLimits path := by
  obtain ⟨hrefused, -⟩ := lookup_eq_ok_iff.1 h
  constructor
  · by_contra hlong
    rw [refused?] at hrefused
    split at hrefused
    · cases hrefused
    · split at hrefused
      · cases hrefused
      · rw [if_pos (by omega)] at hrefused
        cases hrefused
  · rw [locate_of_lookup h]
    exact nofun

variable {dir path : Bytes} {loc : Location} {entries : List (Bytes × Node)}

/-- A path leads where it leads from inside, if the limits do not keep it from being looked at. -/
theorem lookup_within (hdir : fs.lookup (Glob.listingPath dir) = .ok (loc, .dir entries))
    (hpath : Style.posix.isAbsolute path = false)
    (hlimits : fs.WithinLimits (Glob.listingPath (Style.posix.within dir path))) :
    fs.lookup (Glob.listingPath (Style.posix.within dir path)) =
      (fs.inside loc).lookup (Glob.listingPath path) := by
  obtain ⟨hrefused, hfollow, hat⟩ := lookup_eq_ok_iff.1 hdir
  by_cases hne : path = []
  · subst hne
    have hlookup : (fs.inside loc).lookup (Glob.listingPath []) = .ok (loc, .dir entries) :=
      lookup_cwd hat
    rw [Style.within_nil, hdir, hlookup]
  · have hlonger : Style.posix.within dir path ≠ [] := by
      rw [Style.within_eq hpath hne]
      simp [hne]
    rw [listingPath_of_ne_nil hlonger] at hlimits ⊢
    rw [listingPath_of_ne_nil hne]
    -- the names of the directory are followed first, and those of the path from there
    obtain ⟨dots, hsteps, hdots⟩ := steps_listingPath dir
    rw [start_listingPath, hsteps] at hfollow
    obtain ⟨left, hleft, hrest⟩ := follow_append hfollow hdots (by rw [hat]; rfl)
    have hlocate : fs.locate (Style.posix.within dir path) = (fs.inside loc).locate path := by
      have hlinks := hlimits.links
      rw [locate, refused?_within hrefused hpath hne hlimits.length] at hlinks ⊢
      rw [locate]
      cases hfit : refused? path with
      | some e => rfl
      | none =>
        rw [hfit] at hlinks
        dsimp only at hlinks ⊢
        rw [start_within hpath, steps_within hpath hne, hrest] at hlinks ⊢
        have hstart : start path (fs.inside loc).cwd = loc := by
          rw [start, isAbsolute_eq, hpath]
          rfl
        rw [hstart]
        exact (follow_more (root_inside fs loc) hleft hlinks).symm
    rw [lookup, hlocate]
    rfl

/-- A directory has the same entries from inside, unless only the limits keep it from being listed
from further out. -/
theorem list_within (hdir : fs.lookup (Glob.listingPath dir) = .ok (loc, .dir entries))
    (hpath : Style.posix.isAbsolute path = false)
    (hlimits : ((fs.inside loc).list (Glob.listingPath path)).isSome →
      fs.WithinLimits (Glob.listingPath (Style.posix.within dir path))) :
    fs.list (Glob.listingPath (Style.posix.within dir path)) =
      (fs.inside loc).list (Glob.listingPath path) := by
  by_cases hfits : fs.WithinLimits (Glob.listingPath (Style.posix.within dir path))
  · unfold list
    rw [lookup_within hdir hpath hfits]
  · have hinner : (fs.inside loc).list (Glob.listingPath path) = none := by
      simpa using mt hlimits hfits
    have houter : fs.list (Glob.listingPath (Style.posix.within dir path)) = none := by
      by_contra hsome
      obtain ⟨_, _, hlookup⟩ := exists_of_list (Option.isSome_iff_ne_none.2 hsome)
      exact hfits (withinLimits_of_lookup hlookup)
    rw [hinner, houter]

end FileSystem

end BuildScript.Files
