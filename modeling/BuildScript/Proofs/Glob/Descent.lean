import BuildScript.Proofs.Files.Resolution

/-!
# What is below a directory

The walk under a directory keeps every path in one buffer and asks the system for one directory
after the other. If all directories can be opened, what it observes is read off the tree: every
entry in the order of the names, and behind a directory its contents.

* `Node.contents`: what is below a node, with the names that lead there;
* `Node.mem_contents`, `Node.pairwise_contents`: everything that can be reached, in the order of the
  names, each once;
* `visitEntries_eq`: the buffer is the same before every entry;
* `descend_eq`, `walkBelow_eq`, `walkDir_eq`: the walk observes what the tree holds.
-/

namespace BuildScript

open BuildScript.Path

namespace Files

/-! ## Entries in order -/

/-- The entries of a directory in the order of their names. -/
def sorted (entries : List (Bytes × Node)) : List (Bytes × Node) :=
  entries.mergeSort fun a b => !decide (b.1 < a.1)

theorem mem_sorted {entries : List (Bytes × Node)} {e : Bytes × Node} :
    e ∈ sorted entries ↔ e ∈ entries :=
  List.mem_mergeSort

/-- What is sorted by its names is in the order of the names. -/
theorem pairwise_mergeSort_name {α : Type} (name : α → Bytes) (entries : List α) :
    (entries.mergeSort fun a b => !decide (name b < name a)).Pairwise
      fun a b => name a ≤ name b := by
  have hle : (entries.mergeSort fun a b => !decide (name b < name a)).Pairwise
      fun a b => (!decide (name b < name a)) = true := by
    refine List.pairwise_mergeSort ?_ ?_ entries
    · intro a b c hab hbc
      have hab : name a ≤ name b := by simpa using hab
      have hbc : name b ≤ name c := by simpa using hbc
      simpa using List.le_trans hab hbc
    · intro a b
      rcases List.le_total (name a) (name b) with hab | hba
      · simp [hab]
      · simp [hba]
  exact hle.imp fun h => by simpa using h

theorem pairwise_sorted {entries : List (Bytes × Node)} (h : (entries.map Prod.fst).Nodup) :
    (sorted entries).Pairwise fun a b => a.1 < b.1 := by
  have hle : (sorted entries).Pairwise fun a b => a.1 ≤ b.1 :=
    pairwise_mergeSort_name Prod.fst entries
  have hne : (sorted entries).Pairwise fun a b => a.1 ≠ b.1 := by
    have hperm := (List.mergeSort_perm entries fun a b => !decide (b.1 < a.1)).map Prod.fst
    exact List.pairwise_map.1 (hperm.nodup_iff.2 h)
  refine (hle.and hne).imp ?_
  rintro a b ⟨hab, hne⟩
  by_cases hlt : a.1 < b.1
  · exact hlt
  · exact absurd (List.le_antisymm hab (List.not_lt.1 hlt)) hne

theorem byName_map_entryOf (entries : List (Bytes × Node)) :
    Glob.byName (entries.map FileSystem.entryOf) = (sorted entries).map FileSystem.entryOf := by
  rw [sorted, List.map_mergeSort]
  · rfl
  · intro a _ b _
    rfl

/-! ## All that is below -/

/-- Something below a directory: the names that lead there. -/
structure Descendant where
  names : List Bytes
  isDir : Bool
  deriving DecidableEq, Repr

/-- What has one more name in front. -/
def Descendant.under (name : Bytes) (d : Descendant) : Descendant := ⟨name :: d.names, d.isDir⟩

/-- An entry of a directory. -/
def Descendant.ofEntry (e : Bytes × Node) : Descendant := ⟨[e.1], e.2.isDir⟩

/-- All that is below a node, a directory before its contents. -/
def Node.contents : Node → List Descendant
  | .dir entries =>
    (sorted entries).attach.flatMap fun e =>
      .ofEntry e.1 :: e.1.2.contents.map (Descendant.under e.1.1)
  | _ => []
termination_by node => sizeOf node
decreasing_by exact Node.sizeOf_lt (mem_sorted.1 e.2)

theorem Node.contents_file (content : Bytes) : (Node.file content).contents = [] := by
  simp [contents]

theorem Node.contents_link (target : Bytes) : (Node.link target).contents = [] := by
  simp [contents]

theorem Node.contents_dir (entries : List (Bytes × Node)) :
    (Node.dir entries).contents =
      (sorted entries).flatMap fun e =>
        .ofEntry e :: e.2.contents.map (Descendant.under e.1) := by
  rw [contents]
  simp only [List.flatMap_subtype, List.unattach_attach]

theorem Node.mem_contents_dir {entries : List (Bytes × Node)} {d : Descendant} :
    d ∈ (Node.dir entries).contents ↔
      ∃ e ∈ entries, d = .ofEntry e ∨ ∃ inner ∈ e.2.contents, d = inner.under e.1 := by
  simp only [contents_dir, List.mem_flatMap, mem_sorted, List.mem_cons, List.mem_map, eq_comm]

/-- What is below a node is what its names lead to. -/
theorem Node.mem_contents {node : Node} (hproper : node.Proper) {d : Descendant} :
    d ∈ node.contents ↔ d.names ≠ [] ∧ ∃ child, node.at? d.names = some child ∧
      child.isDir = d.isDir := by
  induction node using Node.induction generalizing d with
  | file content =>
    obtain ⟨names, isDir⟩ := d
    cases names <;> simp [contents_file, at?]
  | link target =>
    obtain ⟨names, isDir⟩ := d
    cases names <;> simp [contents_link, at?]
  | dir entries ih =>
    rw [mem_contents_dir]
    constructor
    · rintro ⟨e, he, rfl | ⟨inner, hinner, rfl⟩⟩
      · have hchild := hproper.child?_iff.2 he
        refine ⟨by simp [Descendant.ofEntry], e.2, ?_, rfl⟩
        rw [Descendant.ofEntry, at?_dir, hchild]
        rfl
      · have hchild := hproper.child?_iff.2 he
        obtain ⟨-, child, hat, hdir⟩ := (ih e he (hproper.of_mem he)).1 hinner
        refine ⟨by simp [Descendant.under], child, ?_, hdir⟩
        rw [Descendant.under, at?_dir, hchild]
        exact hat
    · rintro ⟨hne, child, hat, hdir⟩
      obtain ⟨names, isDir⟩ := d
      cases names with
      | nil => exact absurd rfl hne
      | cons name names =>
        rw [at?_dir] at hat
        obtain ⟨inner, hinner, hat⟩ := Option.bind_eq_some_iff.1 hat
        have he := hproper.child?_iff.1 hinner
        refine ⟨(name, inner), he, ?_⟩
        cases names with
        | nil =>
          obtain rfl : inner = child := Option.some.inj hat
          obtain rfl : inner.isDir = isDir := hdir
          exact .inl rfl
        | cons more names =>
          refine .inr ⟨⟨more :: names, isDir⟩, ?_, rfl⟩
          exact (ih _ he (hproper.of_mem he)).2 ⟨by simp, child, hat, hdir⟩

/-- What is below a node is ordered by the names that lead there, name by name. -/
theorem Node.pairwise_contents {node : Node} (hproper : node.Proper) :
    node.contents.Pairwise fun a b => a.names < b.names := by
  induction node using Node.induction with
  | file content => simp [contents_file]
  | link target => simp [contents_link]
  | dir entries ih =>
    rw [contents_dir, List.pairwise_flatMap]
    constructor
    · intro e he
      have he := mem_sorted.1 he
      rw [List.pairwise_cons, List.pairwise_map]
      constructor
      · intro d hd
        obtain ⟨inner, hinner, rfl⟩ := List.mem_map.1 hd
        obtain ⟨hne, -⟩ := (mem_contents (hproper.of_mem he)).1 hinner
        obtain ⟨name, names, hnames⟩ := List.exists_cons_of_ne_nil hne
        refine List.cons_lt_cons_iff.2 (.inr ⟨rfl, ?_⟩)
        rw [hnames]
        exact List.nil_lt_cons _ _
      · refine (ih e he (hproper.of_mem he)).imp ?_
        intro a b hab
        exact List.cons_lt_cons_iff.2 (.inr ⟨rfl, hab⟩)
    · -- the first names already tell two entries apart
      have hhead : ∀ e : Bytes × Node, ∀ d ∈
          Descendant.ofEntry e :: e.2.contents.map (Descendant.under e.1),
          ∃ rest, d.names = e.1 :: rest := by
        intro e d hd
        rcases List.mem_cons.1 hd with rfl | hd
        · exact ⟨[], rfl⟩
        · obtain ⟨inner, -, rfl⟩ := List.mem_map.1 hd
          exact ⟨inner.names, rfl⟩
      refine (pairwise_sorted hproper.names.1).imp ?_
      intro a b hab x hx y hy
      obtain ⟨xs, hxs⟩ := hhead a x hx
      obtain ⟨ys, hys⟩ := hhead b y hy
      rw [hxs, hys]
      exact List.cons_lt_cons_iff.2 (.inl hab)

end Files

namespace Glob

open Files

/-! ## What is observed -/

/-- The path that an event finds, and whether it is a directory. -/
def Event.found? : Event → Option (Bytes × Bool)
  | found path isDir => some (path, isDir)
  | listed _ => none

/-- What a walk finds, in the order in which it is found. -/
def founds (events : List Event) : List (Bytes × Bool) := events.filterMap Event.found?

/-- What is observed below a node whose directories can all be opened. -/
def observed (path : Bytes) : Node → List Event
  | .dir entries =>
    (sorted entries).attach.flatMap fun e =>
      let inner := Style.posix.join path e.1.1
      .found inner e.1.2.isDir ::
        ((if e.1.2.isDir then [.listed inner] else []) ++ observed inner e.1.2)
  | _ => []
termination_by node => sizeOf node
decreasing_by exact Node.sizeOf_lt (mem_sorted.1 e.2)

/-- What is observed of one entry. -/
def observedEntry (path : Bytes) (e : Bytes × Node) : List Event :=
  .found (Style.posix.join path e.1) e.2.isDir ::
    ((if e.2.isDir then [.listed (Style.posix.join path e.1)] else []) ++
      observed (Style.posix.join path e.1) e.2)

theorem observed_dir (path : Bytes) (entries : List (Bytes × Node)) :
    observed path (.dir entries) = (sorted entries).flatMap (observedEntry path) := by
  rw [observed]
  simp only [List.flatMap_subtype, List.unattach_attach]
  rfl

/-- What a walk finds where the names of a descendant lead. -/
def foundAt (dir : Bytes) (d : Descendant) : Bytes × Bool :=
  (Style.posix.joinAll (dir :: d.names), d.isDir)

theorem foundAt_ofEntry (dir : Bytes) (e : Bytes × Node) :
    foundAt dir (.ofEntry e) = (Style.posix.join dir e.1, e.2.isDir) := by
  rw [foundAt, Descendant.ofEntry, Style.joinAll_cons]
  rfl

theorem foundAt_under (dir name : Bytes) (d : Descendant) :
    foundAt dir (d.under name) = foundAt (Style.posix.join dir name) d := by
  rw [foundAt, foundAt, Descendant.under, Style.joinAll_cons_cons]

theorem founds_append (xs ys : List Event) : founds (xs ++ ys) = founds xs ++ founds ys :=
  List.filterMap_append

/-- What is found, without what it is. -/
theorem map_fst_founds (events : List Event) :
    (founds events).map Prod.fst = foundPaths events := by
  rw [founds, foundPaths, List.map_filterMap]
  exact List.filterMap_congr fun event _ => by cases event <;> rfl

theorem founds_observedEntry (path : Bytes) (e : Bytes × Node) :
    founds (observedEntry path e) =
      foundAt path (.ofEntry e) :: founds (observed (Style.posix.join path e.1) e.2) := by
  have hlisted : founds (if e.2.isDir then [.listed (Style.posix.join path e.1)] else []) = [] := by
    split <;> rfl
  rw [observedEntry, foundAt_ofEntry, ← List.nil_append (founds (observed _ _)), ← hlisted,
    ← founds_append]
  rfl

theorem founds_observed (path : Bytes) (node : Node) :
    founds (observed path node) = node.contents.map (foundAt path) := by
  induction node using Node.induction generalizing path with
  | file content => simp [observed, Node.contents_file, founds]
  | link target => simp [observed, Node.contents_link, founds]
  | dir entries ih =>
    rw [observed_dir, Node.contents_dir, founds, List.filterMap_flatMap, List.map_flatMap]
    refine List.flatMap_congr fun e he => ?_
    rw [← founds, founds_observedEntry, ih e (mem_sorted.1 he), List.map_cons, List.map_map]
    refine congrArg _ (List.map_congr_left fun d _ => ?_)
    exact (foundAt_under path e.1 d).symm

/-! ## Walking down -/

/-- The buffer is the same before every entry if every entry leaves it at the front. -/
theorem visitEntries_eq {α : Type} {list : Listing} {style : Style}
    {below : Bytes → List Entry → Option (List Event × Bytes)} {len : Nat} {buffer : Bytes}
    {toEntry : α → Entry} {events : α → List Event} {entries : List α}
    (h : ∀ a ∈ entries, ∃ after, after.take len = buffer ∧
      visitEntry list style below buffer (toEntry a) = some (events a, after)) :
    visitEntries list style below len buffer (entries.map toEntry) =
      some (entries.flatMap events, buffer) := by
  induction entries with
  | nil => rfl
  | cons a entries ih =>
    obtain ⟨after, htake, hvisit⟩ := h a List.mem_cons_self
    have hrest := ih fun b hb => h b (List.mem_cons_of_mem _ hb)
    rw [List.map_cons, visitEntries, hvisit, Option.bind_some, htake, hrest, Option.map_some,
      List.flatMap_cons]

/-- Whether all directories below a path can be opened. -/
def OpensBelow (list : Listing) (path : Bytes) (node : Node) : Prop :=
  ∀ names entries, node.at? names = some (.dir entries) →
    (list (listingPath (Style.posix.joinAll (path :: names)))).isSome

theorem OpensBelow.entry {list : Listing} {path : Bytes} {entries : List (Bytes × Node)}
    {name : Bytes} {child : Node} (h : OpensBelow list path (.dir entries))
    (hchild : child? entries name = some child) :
    OpensBelow list (Style.posix.join path name) child := by
  intro names below hat
  rw [← Style.joinAll_cons_cons]
  refine h (name :: names) below ?_
  rw [Node.at?_dir, hchild]
  exact hat

section Walking

variable {fs : FileSystem} {path : Bytes} {loc : Location} {entries : List (Bytes × Node)}

theorem open?_of_lookup (h : fs.lookup (listingPath path) = .ok (loc, .dir entries)) :
    open? fs.list path = some ((sorted entries).map FileSystem.entryOf) := by
  rw [open?, FileSystem.list_of_lookup h, Option.map_some, byName_map_entryOf]

theorem listingPath_join {name : Bytes} (h : ProperName name) (path : Bytes) :
    listingPath (Style.posix.join path name) = Style.posix.join path name :=
  listingPath_of_ne_nil (h.join_ne_nil path)

/-- An entry that is a directory is listed where its directory has it. -/
theorem lookup_entry (hdir : fs.lookup (listingPath path) = .ok (loc, .dir entries))
    (hopens : OpensBelow fs.list path (.dir entries)) {name : Bytes} (hname : ProperName name)
    {children : List (Bytes × Node)} (hchild : child? entries name = some (.dir children)) :
    fs.lookup (listingPath (Style.posix.join path name)) =
      .ok (loc ++ [name], .dir children) := by
  have hpath := listingPath_join hname path
  have hopen := hopens.entry hchild [] children rfl
  rw [Style.joinAll_singleton] at hopen
  obtain ⟨loc', children', hlookup⟩ := FileSystem.exists_of_list hopen
  rw [hlookup]
  rw [hpath] at hlookup
  exact congrArg _
    (FileSystem.eq_of_lookup_join hdir hname hchild (fun _ => by simp) hlookup)

/-- So is everything below that is a directory. -/
theorem lookup_below {names : List Bytes} {children : List (Bytes × Node)}
    (hdir : fs.lookup (listingPath path) = .ok (loc, .dir entries))
    (hproper : (Node.dir entries).Proper) (hopens : OpensBelow fs.list path (.dir entries))
    (hat : (Node.dir entries).at? names = some (.dir children)) :
    fs.lookup (listingPath (Style.posix.joinAll (path :: names))) =
        .ok (loc ++ names, .dir children) ∧
      OpensBelow fs.list (Style.posix.joinAll (path :: names)) (.dir children) := by
  induction names generalizing path loc entries with
  | nil =>
    cases hat
    rw [Style.joinAll_singleton, List.append_nil]
    exact ⟨hdir, hopens⟩
  | cons name names ih =>
    rw [Node.at?_dir] at hat
    obtain ⟨child, hchild, hat⟩ := Option.bind_eq_some_iff.1 hat
    obtain ⟨inner, rfl⟩ : ∃ inner, child = .dir inner := by
      cases names with
      | nil => exact ⟨children, Option.some.inj hat⟩
      | cons more names => exact Node.isDir_iff.1 (Node.isDir_of_at? hat)
    have hmem := hproper.child?_iff.1 hchild
    have hlookup := lookup_entry hdir hopens (hproper.names.2 _ hmem) hchild
    rw [Style.joinAll_cons_cons, List.append_cons]
    exact ih hlookup (hproper.of_mem hmem) (hopens.entry hchild) hat

/-- Only the limits on paths and names keep a directory below from being opened. -/
theorem opensBelow_of_fits (hdir : fs.lookup (listingPath path) = .ok (loc, .dir entries))
    (hproper : (Node.dir entries).Proper)
    (hfits : ∀ names children, names ≠ [] → (Node.dir entries).at? names = some (.dir children) →
      FileSystem.refused? (Style.posix.joinAll (path :: names)) = none ∧
        ∀ name ∈ names, name.length ≤ maxName) :
    OpensBelow fs.list path (.dir entries) := by
  intro names children hat
  have hlookup : fs.lookup (listingPath (Style.posix.joinAll (path :: names))) =
      .ok (loc ++ names, .dir children) := by
    induction names using List.reverseRecOn generalizing children with
    | nil =>
      cases hat
      rw [Style.joinAll_singleton, List.append_nil]
      exact hdir
    | append_singleton names name ih =>
      obtain ⟨hrefused, hlength⟩ := hfits _ _ (by simp) hat
      rw [Node.at?_append] at hat
      obtain ⟨above, habove, hat⟩ := Option.bind_eq_some_iff.1 hat
      obtain ⟨siblings, rfl⟩ := Node.isDir_iff.1 (Node.isDir_of_at? hat)
      obtain ⟨child, hchild, hat⟩ := Option.bind_eq_some_iff.1 hat
      obtain rfl : child = .dir children := Option.some.inj hat
      have hsiblings := hproper.at? habove
      have hname := hsiblings.names.2 _ (hsiblings.child?_iff.1 hchild)
      have hjoin : Style.posix.joinAll (path :: (names ++ [name])) =
          Style.posix.join (Style.posix.joinAll (path :: names)) name := by
        rw [Style.joinAll_cons_append, Style.joinAll_cons]
        rfl
      rw [hjoin] at hrefused ⊢
      rw [listingPath_join hname, ← List.append_assoc]
      exact FileSystem.lookup_join (ih siblings habove) hname hchild (by simp)
        (hlength name (by simp)) hrefused
  rw [FileSystem.list_of_lookup hlookup]
  rfl

/-- In a directory it is enough that each entry puts its name behind the path. -/
theorem visitEntries_proper {below : Bytes → List Entry → Option (List Event × Bytes)}
    {events : Bytes × Node → List Event} (hproper : (Node.dir entries).Proper)
    (h : ∀ e ∈ entries, ProperName e.1 → child? entries e.1 = some e.2 →
      visitEntry fs.list .posix below path (FileSystem.entryOf e) =
        some (events e, Style.posix.join path e.1)) :
    visitEntries fs.list .posix below path.length path
      ((sorted entries).map FileSystem.entryOf) = some ((sorted entries).flatMap events, path) := by
  refine visitEntries_eq fun e he => ?_
  have he := mem_sorted.1 he
  have hname := hproper.names.2 e he
  exact ⟨Style.posix.join path e.1, Style.take_join hname.not_isAbsolute,
    h e he hname (hproper.child?_iff.2 he)⟩

/-- Going down observes what the tree holds, and leaves the buffer as it was. -/
theorem descend_eq {budget : Nat}
    (hdir : fs.lookup (listingPath path) = .ok (loc, .dir entries))
    (hproper : (Node.dir entries).Proper) (hopens : OpensBelow fs.list path (.dir entries))
    (hbudget : (Node.dir entries).height ≤ budget) :
    descend fs.list .posix budget path ((sorted entries).map FileSystem.entryOf) =
      some (observed path (.dir entries), path) := by
  induction budget generalizing path loc entries with
  | zero => simp [Node.height] at hbudget
  | succ budget ih =>
    rw [descend, observed_dir]
    refine visitEntries_proper hproper fun e he hname hchild => ?_
    rw [visitEntry, observedEntry]
    cases hnode : e.2 with
    | file content => simp [FileSystem.entryOf, hnode, Node.isDir, observed]
    | link target => simp [FileSystem.entryOf, hnode, Node.isDir, observed]
    | dir children =>
      rw [hnode] at hchild
      have hlookup := lookup_entry hdir hopens hname hchild
      have hheight := Node.height_lt he
      have hbelow := ih hlookup (hnode ▸ hproper.of_mem he) (hopens.entry hchild)
        (by rw [hnode] at hheight; omega)
      have hpath := listingPath_join hname path
      have hopen := open?_of_lookup hlookup
      simp only [FileSystem.entryOf, hnode, Node.isDir, if_true, hpath, hopen]
      rw [hbelow]
      rfl

theorem walkBelow_eq {budget : Nat}
    (hdir : fs.lookup (listingPath path) = .ok (loc, .dir entries))
    (hproper : (Node.dir entries).Proper) (hopens : OpensBelow fs.list path (.dir entries))
    (hbudget : (Node.dir entries).height ≤ budget) :
    walkBelow fs.list .posix budget path =
      some (.listed (listingPath path) :: .found path true :: observed path (.dir entries)) := by
  rw [walkBelow, open?_of_lookup hdir]
  simp only [descend_eq hdir hproper hopens hbudget, Option.map_some]

/-! ## One directory -/

/-- The buffer is the same before every entry if no name stands alone. -/
theorem matching_eq {style : Style} {pattern buffer : Bytes} {es : List Entry}
    (h : ∀ e ∈ es, style.isAbsolute e.name = false) :
    matching style pattern buffer.length buffer es =
      (es.filter fun e => matchesPattern style e.name pattern).map fun e =>
        .found (style.join buffer e.name) e.isDir := by
  induction es with
  | nil => rfl
  | cons e es ih =>
    have hrest := ih fun b hb => h b (List.mem_cons_of_mem _ hb)
    have htake := @Style.take_join style buffer e.name (h e List.mem_cons_self)
    rw [matching, List.filter_cons]
    split
    · simp only [htake, hrest, List.map_cons]
    · exact hrest

theorem walkDir_eq {pattern : Bytes} (hpattern : pattern ≠ [])
    (hdir : fs.lookup (listingPath path) = .ok (loc, .dir entries))
    (hproper : (Node.dir entries).Proper) :
    founds (walkDir fs.list .posix path pattern) =
      ((sorted entries).filter fun e => matchesPattern .posix e.1 pattern).map fun e =>
        foundAt path (.ofEntry e) := by
  have hnames : ∀ e ∈ (sorted entries).map FileSystem.entryOf,
      Style.posix.isAbsolute e.name = false := by
    intro e he
    obtain ⟨entry, hentry, rfl⟩ := List.mem_map.1 he
    exact (hproper.names.2 entry (mem_sorted.1 hentry)).not_isAbsolute
  rw [walkDir, if_neg (by simpa using hpattern), open?_of_lookup hdir]
  simp only [matching_eq hnames]
  rw [List.filter_map, List.map_map, founds, List.filterMap_cons, List.filterMap_map]
  rw [← List.filterMap_eq_map]
  refine List.filterMap_congr fun e _ => ?_
  exact (congrArg some (foundAt_ofEntry path e)).symm

end Walking

end Glob

end BuildScript
