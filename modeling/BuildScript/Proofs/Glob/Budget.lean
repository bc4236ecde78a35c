import BuildScript.Proofs.Glob.Opened

/-!
# Walks that end

The budget of a walk only bounds how deep it may go. A walk that ends observes the same with any
larger budget, and on a finite tree every walk ends: a directory that is entered on the way down
is one level deeper in the tree than the one before, also where links have led to the start.

* `walk_mono`: more budget changes nothing;
* `walk_ends`: every walk ends within the height of the tree.
-/

namespace BuildScript.Glob

open BuildScript.Path Files

/-- Whether a walk ends within some budget. -/
def Ends (list : Listing) (style : Style) (pattern : Bytes) : Prop :=
  ∃ budget, (walk list style budget pattern).isSome

/-! ## More budget -/

section More

variable {list : Listing} {style : Style}

/-- One way down has the results of another. -/
def Extends (below more : Bytes → List Entry → Option (List Event × Bytes)) : Prop :=
  ∀ buffer entries r, below buffer entries = some r → more buffer entries = some r

theorem visitEntry_extends {below more : Bytes → List Entry → Option (List Event × Bytes)}
    (hmore : Extends below more) {buffer : Bytes} {e : Entry} {r : List Event × Bytes}
    (h : visitEntry list style below buffer e = some r) :
    visitEntry list style more buffer e = some r := by
  unfold visitEntry at h ⊢
  by_cases hdir : e.isDir
  · rw [if_pos hdir] at h ⊢
    cases hopen : open? list (style.join buffer e.name) with
    | none =>
      rw [hopen] at h
      exact h
    | some children =>
      rw [hopen] at h
      obtain ⟨inner, hinner, rfl⟩ := Option.map_eq_some_iff.1 h
      dsimp only
      rw [hmore _ _ _ hinner]
      rfl
  · rw [if_neg hdir] at h ⊢
    exact h

theorem visitEntries_extends {below more : Bytes → List Entry → Option (List Event × Bytes)}
    (hmore : Extends below more) (len : Nat) :
    Extends (visitEntries list style below len) (visitEntries list style more len) := by
  intro buffer entries r h
  induction entries generalizing buffer r with
  | nil => exact h
  | cons e entries ih =>
    rw [visitEntries] at h ⊢
    obtain ⟨first, hfirst, h⟩ := Option.bind_eq_some_iff.1 h
    obtain ⟨rest, hrest, rfl⟩ := Option.map_eq_some_iff.1 h
    rw [visitEntry_extends hmore hfirst, Option.bind_some, ih _ _ hrest]
    rfl

theorem descend_extends {budget larger : Nat} (h : budget ≤ larger) :
    Extends (descend list style budget) (descend list style larger) := by
  induction budget generalizing larger with
  | zero =>
    intro buffer entries r hr
    cases hr
  | succ budget ih =>
    obtain ⟨larger, rfl⟩ : ∃ n, larger = n + 1 := ⟨larger - 1, by omega⟩
    intro buffer entries r hr
    rw [descend] at hr ⊢
    exact visitEntries_extends (ih (Nat.le_of_succ_le_succ h)) _ _ _ _ hr

theorem walkBelow_mono {budget larger : Nat} (h : budget ≤ larger) {dir : Bytes}
    {events : List Event} (hwalk : walkBelow list style budget dir = some events) :
    walkBelow list style larger dir = some events := by
  unfold walkBelow at hwalk ⊢
  cases hopen : open? list dir with
  | none =>
    rw [hopen] at hwalk
    exact hwalk
  | some entries =>
    rw [hopen] at hwalk
    obtain ⟨r, hr, rfl⟩ := Option.map_eq_some_iff.1 hwalk
    dsimp only
    rw [descend_extends h _ _ _ hr]
    rfl

theorem follow_mono {budget larger : Nat} (h : budget ≤ larger) {tail : Bytes} {event : Event}
    {events : List Event} (hfollow : follow list style budget tail event = some events) :
    follow list style larger tail event = some events := by
  match event with
  | .listed _ => exact hfollow
  | .found _ false => exact hfollow
  | .found path true =>
    rw [follow] at hfollow ⊢
    by_cases hrec : isRecursive tail
    · rw [if_pos hrec] at hfollow ⊢
      exact walkBelow_mono h hfollow
    · rw [if_neg hrec] at hfollow ⊢
      exact hfollow

theorem mapM_follow_mono {budget larger : Nat} (h : budget ≤ larger) {tail : Bytes}
    {events : List Event} {parts : List (List Event)}
    (hparts : events.mapM (follow list style budget tail) = some parts) :
    events.mapM (follow list style larger tail) = some parts := by
  induction events generalizing parts with
  | nil => exact hparts
  | cons event events ih =>
    rw [List.mapM_cons] at hparts ⊢
    obtain ⟨first, hfirst, hparts⟩ := Option.bind_eq_some_iff.1 hparts
    obtain ⟨rest, hrest, hparts⟩ := Option.bind_eq_some_iff.1 hparts
    rw [follow_mono h hfirst, ih hrest]
    exact hparts

/-- A walk that ends observes the same with more budget. -/
theorem walk_mono {budget larger : Nat} (h : budget ≤ larger) {pattern : Bytes}
    {events : List Event} (hwalk : walk list style budget pattern = some events) :
    walk list style larger pattern = some events := by
  rw [walk] at hwalk ⊢
  by_cases hglob : isGlob (style.split pattern).head = true
  · rw [dif_pos hglob] at hwalk ⊢
    obtain ⟨outer, houter, hwalk⟩ := Option.bind_eq_some_iff.1 hwalk
    obtain ⟨parts, hparts, rfl⟩ := Option.map_eq_some_iff.1 hwalk
    rw [walk_mono h houter, Option.bind_some, mapM_follow_mono h hparts]
    rfl
  · rw [dif_neg hglob] at hwalk ⊢
    by_cases hrec : isRecursive (style.split pattern).tail = true
    · rw [if_pos hrec] at hwalk ⊢
      exact walkBelow_mono h hwalk
    · rw [if_neg hrec] at hwalk ⊢
      exact hwalk
termination_by pattern.length
decreasing_by exact split_head_lt hglob

end More

/-! ## Finite trees -/

section Trees

variable {fs : FileSystem} (hroot : fs.root.Proper)
include hroot

theorem walkBelow_ends (dir : Bytes) :
    (walkBelow fs.list .posix fs.root.height dir).isSome := by
  cases hopen : open? fs.list dir with
  | none =>
    rw [walkBelow, hopen]
    rfl
  | some children =>
    obtain ⟨loc, entries, hlookup, rfl⟩ := exists_of_open? hopen
    have hat := (FileSystem.lookup_eq_ok_iff.1 hlookup).2.2
    rw [walkBelow_reported hlookup (hroot.at? hat) (Node.height_le_of_at? hroot hat)]
    rfl

theorem follow_ends (tail : Bytes) (event : Event) :
    (follow fs.list .posix fs.root.height tail event).isSome := by
  match event with
  | .listed _ => rfl
  | .found _ false => rfl
  | .found path true =>
    rw [follow]
    by_cases hrec : isRecursive tail
    · rw [if_pos hrec]
      exact walkBelow_ends hroot path
    · rw [if_neg hrec]
      rfl

theorem mapM_follow_ends (tail : Bytes) (events : List Event) :
    (events.mapM (follow fs.list .posix fs.root.height tail)).isSome := by
  induction events with
  | nil => rfl
  | cons event events ih =>
    obtain ⟨first, hfirst⟩ := Option.isSome_iff_exists.1 (follow_ends hroot tail event)
    obtain ⟨rest, hrest⟩ := Option.isSome_iff_exists.1 ih
    rw [List.mapM_cons, hfirst, hrest]
    rfl

/-- On a finite tree every walk ends, whatever links there are. -/
theorem walk_ends (pattern : Bytes) :
    (walk fs.list .posix fs.root.height pattern).isSome := by
  rw [walk]
  by_cases hglob : isGlob (Style.posix.split pattern).head = true
  · rw [dif_pos hglob]
    obtain ⟨outer, houter⟩ := Option.isSome_iff_exists.1
      (walk_ends (Style.posix.split pattern).head)
    obtain ⟨parts, hparts⟩ := Option.isSome_iff_exists.1
      (mapM_follow_ends hroot (Style.posix.split pattern).tail outer)
    rw [houter, Option.bind_some, hparts]
    rfl
  · rw [dif_neg hglob]
    by_cases hrec : isRecursive (Style.posix.split pattern).tail = true
    · rw [if_pos hrec]
      exact walkBelow_ends hroot _
    · rw [if_neg hrec]
      split
      · rfl
      · split <;> rfl
termination_by pattern.length
decreasing_by exact split_head_lt hglob

end Trees

end BuildScript.Glob
