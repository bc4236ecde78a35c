import BuildScript.Proofs.Glob.Descent

/-!
# Directories that cannot be opened

The walk under a directory finds a directory that cannot be opened, and nothing below it. What it
observes is read off the tree that is left when such directories are emptied.

* `Node.opened`: the tree that is left;
* `Reached`, `Node.mem_contents_opened`: what is in it, and where that is in the whole tree;
* `descend_reported`, `walkBelow_reported`: the walk observes what is left.
-/

namespace BuildScript

open BuildScript.Path

namespace Files

/-! ## Trees with directories that cannot be opened -/

/-- A tree at a path, where a directory that cannot be listed under its path has no entries. -/
def Node.opened (list : Glob.Listing) (path : Bytes) : Node → Node
  | .dir entries =>
    .dir <| if (Glob.open? list path).isSome then
      entries.attach.map fun e => (e.1.1, e.1.2.opened list (Style.posix.join path e.1.1))
    else []
  | node => node
termination_by node => sizeOf node
decreasing_by exact Node.sizeOf_lt e.2

/-- An entry in the tree that is left. -/
def openedEntry (list : Glob.Listing) (path : Bytes) (e : Bytes × Node) : Bytes × Node :=
  (e.1, e.2.opened list (Style.posix.join path e.1))

variable {list : Glob.Listing} {path : Bytes}

theorem Node.opened_dir (list : Glob.Listing) (path : Bytes) (entries : List (Bytes × Node)) :
    (Node.dir entries).opened list path =
      .dir (if (Glob.open? list path).isSome then entries.map (openedEntry list path) else []) := by
  rw [opened]
  simp only [List.map_subtype, List.unattach_attach]
  rfl

theorem Node.isDir_opened (node : Node) : (node.opened list path).isDir = node.isDir := by
  cases node with
  | dir entries => rw [opened_dir]; rfl
  | file content => simp [opened]
  | link target => simp [opened]

theorem child?_map_openedEntry (entries : List (Bytes × Node)) (name : Bytes) :
    child? (entries.map (openedEntry list path)) name =
      (child? entries name).map (Node.opened list (Style.posix.join path name)) := by
  induction entries with
  | nil => rfl
  | cons e entries ih =>
    rw [List.map_cons, child?, child?, List.find?_cons, List.find?_cons]
    by_cases he : e.1 = name
    · subst he
      simp [openedEntry]
    · have hsame : (openedEntry list path e).1 = e.1 := rfl
      rw [hsame, beq_false_of_ne he]
      exact ih

theorem Node.proper_opened {node : Node} (h : node.Proper) (path : Bytes) :
    (node.opened list path).Proper := by
  induction node using Node.induction generalizing path with
  | file content => simpa [opened] using h
  | link target => simpa [opened] using h
  | dir entries ih =>
    rw [opened_dir]
    split
    · have hnames : (entries.map (openedEntry list path)).map Prod.fst = entries.map Prod.fst := by
        rw [List.map_map]
        rfl
      refine proper_dir (hnames ▸ h.names.1) ?_ ?_
      · intro e he
        obtain ⟨entry, hentry, rfl⟩ := List.mem_map.1 he
        exact h.names.2 entry hentry
      · intro e he
        obtain ⟨entry, hentry, rfl⟩ := List.mem_map.1 he
        exact ih entry hentry (h.of_mem hentry) _
    · exact proper_dir (by simp) (by simp) (by simp)

/-- The names lead to what is left of the node that they led to, if every directory on the way can
be opened. -/
theorem Node.at?_opened {node left : Node} {names : List Bytes} :
    (node.opened list path).at? names = some left ↔
      ∃ child, node.at? names = some child ∧
        left = child.opened list (Style.posix.joinAll (path :: names)) ∧
        ∀ above, above <+: names → above ≠ names →
          (Glob.open? list (Style.posix.joinAll (path :: above))).isSome := by
  induction names generalizing node path with
  | nil =>
    rw [at?_nil, at?_nil, Style.joinAll_singleton]
    constructor
    · intro h
      refine ⟨node, rfl, (Option.some.inj h).symm, fun above habove hne => ?_⟩
      exact absurd (List.prefix_nil.1 habove) hne
    · rintro ⟨child, hchild, rfl, -⟩
      rw [Option.some.inj hchild]
  | cons name names ih =>
    cases node with
    | file content => simp [opened, at?]
    | link target => simp [opened, at?]
    | dir entries =>
      rw [opened_dir, at?_dir, at?_dir]
      by_cases hopen : (Glob.open? list path).isSome
      · rw [if_pos hopen, child?_map_openedEntry]
        simp only [Option.bind_map, Option.bind_eq_some_iff, Function.comp_apply, ih,
          Style.joinAll_cons_cons]
        constructor
        · rintro ⟨inner, hinner, child, hat, hleft, hopens⟩
          refine ⟨child, ⟨inner, hinner, hat⟩, hleft, fun above habove hne => ?_⟩
          cases above with
          | nil =>
            rw [Style.joinAll_singleton]
            exact hopen
          | cons first above =>
            obtain ⟨rfl, hmore⟩ := List.cons_prefix_cons.1 habove
            rw [Style.joinAll_cons_cons]
            exact hopens above hmore fun heq => hne (by rw [heq])
        · rintro ⟨child, ⟨inner, hinner, hat⟩, hleft, hopens⟩
          refine ⟨inner, hinner, child, hat, hleft, fun above habove hne => ?_⟩
          rw [← Style.joinAll_cons_cons]
          refine hopens (name :: above) (List.cons_prefix_cons.2 ⟨rfl, habove⟩) ?_
          exact fun heq => hne (List.cons.inj heq).2
      · rw [if_neg hopen]
        constructor
        · intro h
          cases h
        · rintro ⟨child, -, -, hopens⟩
          have hself := hopens [] List.nil_prefix (by simp)
          rw [Style.joinAll_singleton] at hself
          exact absurd hself hopen

theorem sorted_map_openedEntry (entries : List (Bytes × Node)) :
    sorted (entries.map (openedEntry list path)) =
      (sorted entries).map (openedEntry list path) := by
  rw [sorted, sorted, List.map_mergeSort]
  intro a _ b _
  rfl

/-- Below a directory, what its names lead to through directories that can be opened. -/
structure Reached (list : Glob.Listing) (path : Bytes) (node : Node) (d : Descendant) : Prop where
  below : d.names ≠ []
  leads : ∃ child, node.at? d.names = some child ∧ child.isDir = d.isDir
  opens : ∀ above, above <+: d.names → above ≠ d.names →
    (Glob.open? list (Style.posix.joinAll (path :: above))).isSome

theorem Node.mem_contents_opened {node : Node} (hproper : node.Proper) {d : Descendant} :
    d ∈ (node.opened list path).contents ↔ Reached list path node d := by
  rw [mem_contents (proper_opened hproper path)]
  constructor
  · rintro ⟨hne, left, hleft, hdir⟩
    obtain ⟨child, hchild, rfl, hopens⟩ := at?_opened.1 hleft
    exact ⟨hne, ⟨child, hchild, (isDir_opened child).symm.trans hdir⟩, hopens⟩
  · rintro ⟨hne, ⟨child, hchild, hdir⟩, hopens⟩
    exact ⟨hne, _, at?_opened.2 ⟨child, hchild, rfl, hopens⟩, (isDir_opened child).trans hdir⟩

/-- If all directories can be opened, everything below is reached. -/
theorem reached_of_opensBelow {node : Node} {d : Descendant}
    (hopens : Glob.OpensBelow list path node) (hne : d.names ≠ [])
    (hleads : ∃ child, node.at? d.names = some child ∧ child.isDir = d.isDir) :
    Reached list path node d := by
  refine ⟨hne, hleads, fun above habove hshorter => ?_⟩
  obtain ⟨child, hchild, -⟩ := hleads
  obtain ⟨rest, hrest⟩ := habove
  cases rest with
  | nil => exact absurd (by simpa using hrest) hshorter
  | cons name rest =>
    rw [← hrest, Node.at?_append] at hchild
    obtain ⟨inner, hinner, hchild⟩ := Option.bind_eq_some_iff.1 hchild
    obtain ⟨entries, rfl⟩ := Node.isDir_iff.1 (Node.isDir_of_at? hchild)
    rw [Glob.open?, Option.isSome_map]
    exact hopens above entries hinner

/-- All names on the way to something in a proper tree are proper. -/
theorem Node.Proper.name_of_at? {node child : Node} {loc : Location} (h : node.Proper)
    (hat : node.at? loc = some child) : ∀ name ∈ loc, ProperName name := by
  induction loc generalizing node with
  | nil => simp
  | cons first loc ih =>
    obtain ⟨entries, rfl⟩ := isDir_iff.1 (isDir_of_at? hat)
    rw [at?_dir] at hat
    obtain ⟨inner, hinner, hat⟩ := Option.bind_eq_some_iff.1 hat
    have hmem := h.child?_iff.1 hinner
    intro name hname
    rcases List.mem_cons.1 hname with rfl | hname
    · exact h.names.2 _ hmem
    · exact ih (h.of_mem hmem) hat name hname

/-- Nothing is below a link. -/
theorem Reached.eq_of_link {node : Node} {d : Descendant} (h : Reached list path node d)
    {names : List Bytes} {target : Bytes} (hlink : node.at? names = some (.link target))
    (hbegins : names <+: d.names) : d = ⟨names, false⟩ := by
  obtain ⟨child, hchild, hdir⟩ := h.leads
  obtain ⟨rest, hrest⟩ := hbegins
  rw [← hrest, Node.at?_append, hlink, Option.bind_some] at hchild
  cases rest with
  | nil =>
    obtain rfl : Node.link target = child := Option.some.inj hchild
    rw [List.append_nil] at hrest
    obtain ⟨dnames, disDir⟩ := d
    obtain rfl : names = dnames := hrest
    obtain rfl : false = disDir := hdir
    rfl
  | cons name rest => cases hchild

end Files

namespace Glob

open Files

/-! ## What is observed -/

/-- What is observed of something below a directory: it is found, and then listed if it is a
directory that can be opened. -/
def reported (list : Listing) (dir : Bytes) (d : Descendant) : List Event :=
  let path := Style.posix.joinAll (dir :: d.names)
  .found path d.isDir :: if d.isDir && (open? list path).isSome then [.listed path] else []

theorem reported_ofEntry (list : Listing) (dir : Bytes) (e : Bytes × Node) :
    reported list dir (.ofEntry e) =
      .found (Style.posix.join dir e.1) e.2.isDir ::
        if e.2.isDir && (open? list (Style.posix.join dir e.1)).isSome then
          [.listed (Style.posix.join dir e.1)] else [] := by
  rw [reported, Descendant.ofEntry, Style.joinAll_cons]
  rfl

theorem reported_under (list : Listing) (dir name : Bytes) (d : Descendant) :
    reported list dir (d.under name) = reported list (Style.posix.join dir name) d := by
  rw [reported, reported, Descendant.under, Style.joinAll_cons_cons]

section Walking

variable {fs : FileSystem} {path : Bytes} {loc : Location} {entries : List (Bytes × Node)}

theorem exists_of_open? {children : List Entry} (h : open? fs.list path = some children) :
    ∃ loc entries, fs.lookup (listingPath path) = .ok (loc, .dir entries) ∧
      children = (sorted entries).map FileSystem.entryOf := by
  have hsome : (fs.list (listingPath path)).isSome := by
    obtain ⟨listed, hlisted, -⟩ := Option.map_eq_some_iff.1 h
    rw [hlisted]
    rfl
  obtain ⟨loc, entries, hlookup⟩ := FileSystem.exists_of_list hsome
  rw [open?_of_lookup hlookup] at h
  exact ⟨loc, entries, hlookup, (Option.some.inj h).symm⟩

/-- What is observed of the entries of a directory that was opened, and of what is below them. -/
theorem reported_opened (hopen : (open? fs.list path).isSome) (entries : List (Bytes × Node)) :
    ((Node.dir entries).opened fs.list path).contents.flatMap (reported fs.list path) =
      (sorted entries).flatMap fun e =>
        reported fs.list path (.ofEntry e) ++
          (e.2.opened fs.list (Style.posix.join path e.1)).contents.flatMap
            (reported fs.list (Style.posix.join path e.1)) := by
  rw [Node.opened_dir, if_pos hopen, Node.contents_dir, sorted_map_openedEntry, List.flatMap_assoc,
    List.flatMap_map]
  refine List.flatMap_congr fun e _ => ?_
  have hentry : Descendant.ofEntry (openedEntry fs.list path e) = .ofEntry e := by
    rw [Descendant.ofEntry, openedEntry, Node.isDir_opened]
    rfl
  rw [hentry, List.flatMap_cons, List.flatMap_map]
  refine congrArg _ (List.flatMap_congr fun d _ => ?_)
  exact reported_under fs.list path e.1 d

/-- Going down tells of what is left of the tree, in order, and leaves the buffer as it was. -/
theorem descend_reported {budget : Nat}
    (hdir : fs.lookup (listingPath path) = .ok (loc, .dir entries))
    (hproper : (Node.dir entries).Proper) (hbudget : (Node.dir entries).height ≤ budget) :
    descend fs.list .posix budget path ((sorted entries).map FileSystem.entryOf) =
      some (((Node.dir entries).opened fs.list path).contents.flatMap (reported fs.list path),
        path) := by
  induction budget generalizing path loc entries with
  | zero => simp [Node.height] at hbudget
  | succ budget ih =>
    rw [descend, reported_opened (by rw [open?_of_lookup hdir]; rfl)]
    refine visitEntries_proper hproper fun e he hname hchild => ?_
    rw [visitEntry, reported_ofEntry]
    cases hnode : e.2 with
    | file content =>
      simp [FileSystem.entryOf, hnode, Node.isDir, Node.opened, Node.contents_file]
    | link target =>
      simp [FileSystem.entryOf, hnode, Node.isDir, Node.opened, Node.contents_link]
    | dir children =>
      simp only [FileSystem.entryOf, hnode, Node.isDir, if_true, Bool.true_and]
      cases hopen : open? fs.list (Style.posix.join path e.1) with
      | none => simp [Node.opened_dir, hopen, Node.contents_dir, sorted]
      | some listed =>
        -- what is listed there is the entry itself
        obtain ⟨inner, below, hlookup, rfl⟩ := exists_of_open? hopen
        have hsame := hlookup
        have hpath := listingPath_join hname path
        rw [hpath] at hsame
        rw [hnode] at hchild
        have heq := FileSystem.eq_of_lookup_join hdir hname hchild (fun _ => by simp) hsame
        obtain ⟨-, hbelow⟩ := Prod.mk.inj heq
        cases hbelow
        have hheight := Node.height_lt he
        rw [hnode] at hheight
        have hinner := ih hlookup (hnode ▸ hproper.of_mem he) (by omega)
        dsimp only
        rw [hinner, hpath]
        rfl

theorem walkBelow_reported {budget : Nat}
    (hdir : fs.lookup (listingPath path) = .ok (loc, .dir entries))
    (hproper : (Node.dir entries).Proper) (hbudget : (Node.dir entries).height ≤ budget) :
    walkBelow fs.list .posix budget path =
      some (.listed (listingPath path) :: .found path true ::
        ((Node.dir entries).opened fs.list path).contents.flatMap (reported fs.list path)) := by
  rw [walkBelow, open?_of_lookup hdir]
  dsimp only
  rw [descend_reported hdir hproper hbudget]
  rfl

end Walking

end Glob

end BuildScript
