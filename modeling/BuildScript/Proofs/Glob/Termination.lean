import BuildScript.Proofs.Glob.Restored
import BuildScript.Proofs.Glob.Walking
import Mathlib.Data.Set.Finite.Lattice
import Mathlib.Logic.Relation

/-!
# Walks come to an end

A directory part with a wildcard is shorter than the pattern, since a path that is its own directory
consists of separators. And on a finite tree every way down comes to an end, also where links lead
back up: whatever links have led to its start, from there on it enters an entry only if the entry is
itself a directory, and the path that it opens then leads to that entry, one level deeper in the
tree.

* `HeadOf`: what is resolved before a pattern;
* `StandsAt`: where in the tree a call on the way down is;
* `StandsAt.enters_iff`: one step down is one level deeper;
* `StandsAt.acc`, `finite_calls`: from there only finitely many calls are made;
* `walk_terminates`: the main result.
-/

namespace BuildScript.Glob

open BuildScript.Path Files

/-! ## Directory parts -/

/-- Whether a path is resolved before a pattern, as its directory part. -/
def HeadOf (style : Style) (head pattern : Bytes) : Prop :=
  head = (style.split pattern).head ∧ isGlob head = true

theorem wellFounded_headOf (style : Style) : WellFounded (HeadOf style) := by
  refine Subrelation.wf ?_ (measure List.length).wf
  rintro head pattern ⟨rfl, hglob⟩
  exact split_head_lt hglob

/-! ## Finitely many calls -/

section Calls

variable {list : Listing} {style : Style}

theorem finite_enters (call : Call) : {inner | Enters list style inner call}.Finite := by
  refine (List.finite_toSet (call.entries.filterMap (enter? list style call.dir))).subset ?_
  rintro inner ⟨e, he, henter⟩
  exact List.mem_filterMap.2 ⟨e, he, henter⟩

/-- A call whose calls come to an end makes finitely many. -/
theorem finite_calls {call : Call} (h : Acc (Enters list style) call) :
    {inner | Relation.ReflTransGen (Enters list style) inner call}.Finite := by
  induction h with
  | intro call _ ih =>
    refine (((finite_enters call).biUnion ih).insert call).subset ?_
    intro inner hinner
    obtain rfl | ⟨next, hnext, henters⟩ := hinner.cases_tail
    · exact Set.mem_insert _ _
    · exact Set.mem_insert_of_mem _ (Set.mem_biUnion henters hnext)

end Calls

/-! ## Levels of a tree -/

/-- A call on the way down is at a location in the tree: its path leads there, through whatever
links, and its entries are those of the directory there. -/
structure StandsAt (fs : FileSystem) (loc : Location) (entries : List (Bytes × Node))
    (call : Call) : Prop where
  lookup : fs.lookup (listingPath call.dir) = .ok (loc, .dir entries)
  opens : open? fs.list call.dir = some call.entries

section Levels

variable {fs : FileSystem} {loc : Location} {entries : List (Bytes × Node)} {call : Call}

/-- A directory that is opened is somewhere in the tree. -/
theorem exists_standsAt (h : open? fs.list call.dir = some call.entries) :
    ∃ loc entries, StandsAt fs loc entries call := by
  obtain ⟨loc, entries, hlookup, -⟩ := exists_of_open? h
  exact ⟨loc, entries, hlookup, h⟩

theorem standsAt_of_lookup {dir : Bytes}
    (h : fs.lookup (listingPath dir) = .ok (loc, .dir entries)) :
    StandsAt fs loc entries ⟨dir, (sorted entries).map FileSystem.entryOf⟩ :=
  ⟨h, open?_of_lookup h⟩

theorem StandsAt.entries_eq (h : StandsAt fs loc entries call) :
    call.entries = (sorted entries).map FileSystem.entryOf := by
  have hopens := h.opens
  rw [open?_of_lookup h.lookup] at hopens
  exact (Option.some.inj hopens).symm

section Proper

variable (hroot : fs.root.Proper)
include hroot

theorem StandsAt.proper (h : StandsAt fs loc entries call) : (Node.dir entries).Proper :=
  hroot.at? (FileSystem.lookup_eq_ok_iff.1 h.lookup).2.2

/-- The calls that are made are those for the entries that are themselves directories and can be
opened, and the call for an entry is at the entry. -/
theorem StandsAt.enters_iff (h : StandsAt fs loc entries call) {inner : Call} :
    Enters fs.list .posix inner call ↔ ∃ name children, (name, .dir children) ∈ entries ∧
      inner.dir = Style.posix.join call.dir name ∧ StandsAt fs (loc ++ [name]) children inner := by
  constructor
  · rintro ⟨e, he, henter⟩
    obtain ⟨hdir, hpath, hopens⟩ := enter?_eq_some_iff.1 henter
    rw [h.entries_eq] at he
    obtain ⟨⟨name, node⟩, hmem, rfl⟩ := List.mem_map.1 he
    obtain ⟨children, rfl⟩ := Node.isDir_iff.1 hdir
    have hmem : (name, .dir children) ∈ entries := mem_sorted.1 hmem
    have hpath : inner.dir = Style.posix.join call.dir name := hpath
    have hname := (h.proper hroot).names.2 _ hmem
    have hchild := (h.proper hroot).child?_iff.2 hmem
    -- the path with the name behind it leads to the entry, or nowhere
    obtain ⟨found, below, hlookup, -⟩ := exists_of_open? hopens
    have hsame := hlookup
    rw [hpath, listingPath_join hname] at hsame
    cases FileSystem.eq_of_lookup_join h.lookup hname hchild (fun _ => by simp) hsame
    exact ⟨name, children, hmem, hpath, hlookup, hopens⟩
  · rintro ⟨name, children, hmem, hpath, hinner⟩
    refine ⟨FileSystem.entryOf (name, .dir children), ?_, ?_⟩
    · rw [h.entries_eq]
      exact List.mem_map_of_mem (mem_sorted.2 hmem)
    · exact enter?_eq_some_iff.2 ⟨rfl, hpath, hinner.opens⟩

/-- Every step is one level deeper, so there is no endless way down. -/
theorem StandsAt.acc (h : StandsAt fs loc entries call) : Acc (Enters fs.list .posix) call := by
  generalize hnode : Node.dir entries = node
  induction node using Node.induction generalizing loc entries call with
  | file content => cases hnode
  | link target => cases hnode
  | dir children ih =>
    cases hnode
    refine Acc.intro call fun inner henters => ?_
    obtain ⟨name, below, hmem, -, hinner⟩ := (h.enters_iff hroot).1 henters
    exact ih _ hmem hinner rfl

/-- No name that is met on a proper tree stands alone. -/
theorem StandsAt.noneAbsolute (h : StandsAt fs loc entries call) :
    NoneAbsolute fs.list .posix call := by
  intro names met hleads
  induction hleads generalizing loc entries with
  | here he =>
    rw [h.entries_eq] at he
    obtain ⟨entry, hmem, rfl⟩ := List.mem_map.1 he
    exact ((h.proper hroot).names.2 entry (mem_sorted.1 hmem)).not_isAbsolute
  | deeper he henter _ ih =>
    obtain ⟨name, children, -, -, hinner⟩ := (h.enters_iff hroot).1 ⟨_, he, henter⟩
    exact ih hinner

theorem StandsAt.descend (h : StandsAt fs loc entries call) :
    ∃ r, ∀ budget, fs.root.height ≤ budget →
      descend fs.list .posix budget call.dir call.entries = some r := by
  have hat := (FileSystem.lookup_eq_ok_iff.1 h.lookup).2.2
  have hmin := descend_reported h.lookup (h.proper hroot) (Node.height_le_of_at? hroot hat)
  rw [← h.entries_eq] at hmin
  exact ⟨_, fun budget hbudget => descend_extends hbudget _ _ _ hmin⟩

end Proper

end Levels

theorem walk_unique {list : Listing} {style : Style} {budget other : Nat} {pattern : Bytes}
    {events others : List Event} (h : walk list style budget pattern = some events)
    (hother : walk list style other pattern = some others) : events = others := by
  have hevents := walk_mono (Nat.le_max_left budget other) h
  have hothers := walk_mono (Nat.le_max_right budget other) hother
  exact Option.some.inj (hevents.symm.trans hothers)

/-- Walks come to an end. A directory part with a wildcard is shorter than the pattern, in every
style. On every finite tree, whatever links there are, a way down starts at a directory of the tree
and enters only entries that are directories themselves, each one level deeper than the directory
that it is in; so it makes finitely many calls and has a result, and every pattern has one. -/
theorem walk_terminates :
    (∀ (style : Style) (pattern : Bytes), isGlob (style.split pattern).head = true →
      (style.split pattern).head.length < pattern.length) ∧
    (∀ style, WellFounded (HeadOf style)) ∧
    ∀ fs : FileSystem, fs.root.Proper →
      (∀ start : Call, open? fs.list start.dir = some start.entries →
        (∃ loc entries, StandsAt fs loc entries start) ∧
        {call | Relation.ReflTransGen (Enters fs.list .posix) call start}.Finite ∧
        Acc (Enters fs.list .posix) start ∧
        ∃ r, ∀ budget, fs.root.height ≤ budget →
          descend fs.list .posix budget start.dir start.entries = some r) ∧
      (∀ loc entries outer, StandsAt fs loc entries outer →
        (∀ inner, Enters fs.list .posix inner outer ↔ ∃ name children,
          (name, .dir children) ∈ entries ∧ inner.dir = Style.posix.join outer.dir name ∧
            StandsAt fs (loc ++ [name]) children inner) ∧
        ∀ budget, (descend fs.list .posix (budget + 1) outer.dir outer.entries).isSome ↔
          ∀ inner, Enters fs.list .posix inner outer →
            (descend fs.list .posix budget inner.dir inner.entries).isSome) ∧
      ∀ pattern, ∃ events,
        (∀ budget, fs.root.height ≤ budget →
          walk fs.list .posix budget pattern = some events) ∧
        ∀ budget others, walk fs.list .posix budget pattern = some others → others = events := by
  refine ⟨fun style pattern => split_head_lt, wellFounded_headOf, fun fs hroot => ⟨?_, ?_, ?_⟩⟩
  · intro start hopens
    obtain ⟨loc, entries, hstart⟩ := exists_standsAt hopens
    exact ⟨⟨loc, entries, hstart⟩, finite_calls (hstart.acc hroot), hstart.acc hroot,
      hstart.descend hroot⟩
  · intro loc entries outer houter
    exact ⟨fun inner => houter.enters_iff hroot,
      fun budget => isSome_descend_succ (houter.noneAbsolute hroot)⟩
  · intro pattern
    obtain ⟨events, hevents⟩ := Option.isSome_iff_exists.1 (walk_ends hroot pattern)
    exact ⟨events, fun budget hbudget => walk_mono hbudget hevents,
      fun budget others hothers => walk_unique hothers hevents⟩

/-- The path of the link leads to the root, from below it. -/
theorem linkedTree_lookup :
    linkedTree.lookup (listingPath (Bytes.ofAscii "a/up.c")) = .ok ([], linkedTree.root) := by
  have hlink : listingPath (Bytes.ofAscii "a/up.c") = Bytes.ofAscii "a/up.c" := by decide
  have hsteps : steps (Bytes.ofAscii "a/up.c") = [Bytes.ofAscii "a", Bytes.ofAscii "up.c"] := by
    decide
  have hup : steps [0x2E, 0x2E] = [dotDotName] := by decide
  rw [hlink]
  refine FileSystem.lookup_eq_ok_iff.2 ⟨by decide, ?_, rfl⟩
  rw [hsteps]
  simp [FileSystem.follow, FileSystem.start, linkedTree, Node.at?, isAbsolute, child?, hup,
    maxLinks, maxName, dotName, dotDotName, Bytes.ofAscii, Style.dot, Style.slash]

/-- The walk goes down from there once more. -/
theorem walk_terminates_linkedTree :
    linkedTree.root.Proper ∧
    isGlob (Style.posix.split (Bytes.ofAscii "*/**")).head = true ∧
    (Style.posix.split (Bytes.ofAscii "*/**")).head.length < (Bytes.ofAscii "*/**").length ∧
    (∃ (start inner : Call) (entries children : List (Bytes × Node)),
      start.dir = Bytes.ofAscii "a/up.c" ∧ open? linkedTree.list start.dir = some start.entries ∧
      StandsAt linkedTree [] entries start ∧
      StandsAt linkedTree [Bytes.ofAscii "a"] children inner ∧
      Enters linkedTree.list .posix inner start ∧ Acc (Enters linkedTree.list .posix) start) ∧
    ∃ events, ∀ budget, linkedTree.root.height ≤ budget →
      walk linkedTree.list .posix budget (Bytes.ofAscii "a/up.c/**") = some events := by
  obtain ⟨hhead, -, htrees⟩ := walk_terminates
  obtain ⟨hcalls, hlevels, hwalk⟩ := htrees linkedTree linkedTree_proper
  have hglob : isGlob (Style.posix.split (Bytes.ofAscii "*/**")).head = true := by decide
  have hname : ProperName (Bytes.ofAscii "a") := by decide
  have hstart := standsAt_of_lookup linkedTree_lookup
  have hlookup := FileSystem.lookup_join linkedTree_lookup hname rfl (by simp) (by decide)
    (by decide)
  rw [← listingPath_join hname] at hlookup
  have hinner := standsAt_of_lookup hlookup
  have henters := ((hlevels _ _ _ hstart).1 _).2 ⟨_, _, List.mem_cons_self, rfl, hinner⟩
  obtain ⟨-, -, hacc, -⟩ := hcalls _ hstart.opens
  obtain ⟨events, hevents, -⟩ := hwalk (Bytes.ofAscii "a/up.c/**")
  exact ⟨linkedTree_proper, hglob, hhead _ _ hglob,
    ⟨_, _, _, _, rfl, hstart.opens, hstart, hinner, henters, hacc⟩, events, hevents⟩

end BuildScript.Glob
