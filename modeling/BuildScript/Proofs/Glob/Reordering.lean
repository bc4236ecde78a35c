import BuildScript.Glob.MatchSet
import BuildScript.Proofs.Glob.Descent

/-!
# Listings in any order

A directory may be listed in any order. A walk puts its entries in the order of their names before
it looks at them, and as no two of them have the same name, there is one such order. So all that
depends on directories through their sorted entries is the same for two listings that differ in the
order alone.

* `Reordered`, `SameDirectories`: the same entries in different orders, in one directory and in all;
* `eq_byName_of_perm`: entries can be sorted in one way only;
* `open?_eq_of_sameDirectories`: what a walk sees of a directory;
* `walk_congr`, `glob_congr`: a walk, and a list of patterns, depend on nothing else.
-/

namespace BuildScript.Glob

open BuildScript.Path Files

/-! ## Entries -/

/-- The same entries in different orders. No name stands twice. -/
structure Reordered (es others : List Entry) : Prop where
  nodup : (es.map Entry.name).Nodup
  nodup_others : (others.map Entry.name).Nodup
  mem_iff : ∀ e, e ∈ es ↔ e ∈ others

theorem Reordered.perm {es others : List Entry} (h : Reordered es others) : es.Perm others :=
  (List.perm_ext_iff_of_nodup h.nodup.of_map h.nodup_others.of_map).2 h.mem_iff

theorem Reordered.of_perm {es others : List Entry} (hnodup : (es.map Entry.name).Nodup)
    (h : es.Perm others) : Reordered es others :=
  ⟨hnodup, (h.map Entry.name).nodup_iff.1 hnodup, fun _ => h.mem_iff⟩

/-- However entries are sorted by name, there is one result. -/
theorem eq_byName_of_perm {es others : List Entry} (hnodup : (es.map Entry.name).Nodup)
    (hperm : others.Perm es) (hsorted : others.Pairwise fun a b => a.name ≤ b.name) :
    others = byName es := by
  have hwhole : others.Perm (byName es) := hperm.trans (List.mergeSort_perm es _).symm
  refine hwhole.eq_of_pairwise ?_ hsorted (pairwise_mergeSort_name Entry.name es)
  intro a b ha hb hab hba
  have hb := hwhole.symm.subset hb
  exact List.inj_on_of_nodup_map hnodup (hperm.subset ha) (hperm.subset hb)
    (List.le_antisymm hab hba)

theorem Reordered.byName_eq {es others : List Entry} (h : Reordered es others) :
    byName es = byName others := by
  refine eq_byName_of_perm h.nodup_others ?_ (pairwise_mergeSort_name Entry.name es)
  exact (List.mergeSort_perm es _).trans h.perm

/-- Two listings that can list the same directories, each with the same entries in some order. -/
def SameDirectories (list other : Listing) : Prop :=
  ∀ dir, Option.Rel Reordered (list dir) (other dir)

theorem open?_eq_of_sameDirectories {list other : Listing} (h : SameDirectories list other) :
    open? list = open? other := by
  funext dir
  have hdir := h (listingPath dir)
  unfold open?
  generalize list (listingPath dir) = answer, other (listingPath dir) = otherAnswer at hdir ⊢
  cases hdir with
  | none => rfl
  | some hentries => rw [Option.map_some, Option.map_some, hentries.byName_eq]

/-! ## Walks -/

section
variable {list other : Listing} (h : open? list = open? other)
include h

theorem visitEntry_congr (style : Style) : visitEntry list style = visitEntry other style := by
  funext below buffer e
  rw [visitEntry, visitEntry, h]

theorem visitEntries_congr (style : Style) :
    visitEntries list style = visitEntries other style := by
  funext below len buffer entries
  induction entries generalizing buffer with
  | nil => rfl
  | cons e rest ih =>
    rw [visitEntries, visitEntries, visitEntry_congr h style]
    simp only [ih]

theorem descend_congr (style : Style) : descend list style = descend other style := by
  funext budget
  induction budget with
  | zero => rfl
  | succ budget ih =>
    funext buffer entries
    rw [descend, descend, ih, visitEntries_congr h style]

theorem walkBelow_congr (style : Style) : walkBelow list style = walkBelow other style := by
  funext budget dir
  rw [walkBelow, walkBelow, h, descend_congr h style]

theorem walkDir_congr (style : Style) : walkDir list style = walkDir other style := by
  funext dir pattern
  rw [walkDir, walkDir, h]

theorem follow_congr (style : Style) (budget : Nat) :
    follow list style budget = follow other style budget := by
  funext tail event
  match event with
  | .listed _ => rfl
  | .found _ false => rfl
  | .found path true => rw [follow, follow, walkBelow_congr h style, walkDir_congr h style]

/-- A walk depends on what it sees of the directories that it opens. -/
theorem walk_congr (style : Style) (budget : Nat) (pattern : Bytes) :
    walk list style budget pattern = walk other style budget pattern := by
  conv_lhs => rw [walk, follow_congr h, walkBelow_congr h, walkDir_congr h]
  conv_rhs => rw [walk]
  by_cases hglob : isGlob (style.split pattern).head = true
  · rw [dif_pos hglob, dif_pos hglob, walk_congr style budget (style.split pattern).head]
  · rw [dif_neg hglob, dif_neg hglob]
termination_by pattern.length
decreasing_by exact split_head_lt hglob

theorem apply_congr (style : Style) (budget : Nat) (s : MatchSet) (pattern : Bytes) :
    s.apply list style budget pattern = s.apply other style budget pattern := by
  rw [MatchSet.apply, MatchSet.apply, walk_congr h]

theorem glob_congr (style : Style) (budget : Nat) (patterns : List Bytes) :
    glob list style budget patterns = glob other style budget patterns := by
  unfold glob
  simp only [apply_congr h]

end

end BuildScript.Glob
