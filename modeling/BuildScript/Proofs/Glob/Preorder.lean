import BuildScript.Proofs.Glob.Budget
import BuildScript.Proofs.Glob.Walking
import BuildScript.Proofs.Path.Within
import Mathlib.Data.List.Permutation

/-!
# Everything below a directory, in order

The walk of a directory and all that is below it tells of an entry, then of the listing of the
entry, then of what is below it, and only then of the next entry.

* `Contiguous`, `contiguous_of_pairwise`: what is below something stands right behind it;
* `walk_preorder`: everything that can be reached, each once, in order;
* `walk_misses_unopened`: a directory whose path is too long hides what is below it.
-/

namespace BuildScript

open BuildScript.Path

namespace Files

/-! ## What is below something stands behind it -/

/-- What stands between something and a thing below it is below it as well. -/
theorem prefix_of_between {above between below : List Bytes} (hbelow : above <+: below)
    (hleft : above < between) (hright : between < below) : above <+: between := by
  induction above generalizing between below with
  | nil => exact List.nil_prefix
  | cons name above ih =>
    obtain ⟨rest, rfl⟩ := hbelow
    cases between with
    | nil => exact absurd hleft (List.not_lt_nil _)
    | cons first between =>
      rw [List.cons_append] at hright
      rcases List.cons_lt_cons_iff.1 hleft with hlt | ⟨rfl, hfrom⟩
      · rcases List.cons_lt_cons_iff.1 hright with hgt | ⟨rfl, -⟩
        · exact absurd hgt (List.lt_asymm hlt)
        · exact absurd hlt (List.lt_irrefl _)
      · rcases List.cons_lt_cons_iff.1 hright with hgt | ⟨-, hto⟩
        · exact absurd hgt (List.lt_irrefl _)
        · exact List.cons_prefix_cons.2 ⟨rfl, ih (List.prefix_append _ _) hfrom hto⟩

theorem not_lt_of_isPrefix {above below : List Bytes} (h : above <+: below) : ¬ below < above := by
  induction above generalizing below with
  | nil => exact List.not_lt_nil _
  | cons name above ih =>
    obtain ⟨rest, rfl⟩ := h
    intro hlt
    rcases List.cons_lt_cons_iff.1 hlt with hlt | ⟨-, hlt⟩
    · exact List.lt_irrefl _ hlt
    · exact ih (List.prefix_append _ _) hlt

/-- Behind everything stands what is below it, and only then the rest. -/
def Contiguous (order : List Descendant) : Prop :=
  ∀ d ∈ order, ∃ before below after, order = before ++ d :: (below ++ after) ∧
    (∀ x ∈ below, d.names <+: x.names) ∧ ∀ x ∈ before ++ after, ¬ d.names <+: x.names

theorem contiguous_of_pairwise {order : List Descendant}
    (h : order.Pairwise fun a b => a.names < b.names) : Contiguous order := by
  intro d hd
  obtain ⟨before, rest, rfl⟩ := List.append_of_mem hd
  obtain ⟨-, hrest, hbefore⟩ := List.pairwise_append.1 h
  obtain ⟨hbehind, hrest⟩ := List.pairwise_cons.1 hrest
  let isBelow : Descendant → Bool := fun x => decide (d.names <+: x.names)
  refine ⟨before, rest.takeWhile isBelow, rest.dropWhile isBelow, ?_, ?_, ?_⟩
  · rw [List.takeWhile_append_dropWhile]
  · intro x hx
    simpa [isBelow] using List.mem_takeWhile_imp hx
  · intro x hx hbegins
    rcases List.mem_append.1 hx with hx | hx
    · exact not_lt_of_isPrefix hbegins (hbefore x hx d List.mem_cons_self)
    · -- the first one behind that is not below is between
      cases hcut : rest.dropWhile isBelow with
      | nil =>
        rw [hcut] at hx
        cases hx
      | cons first after =>
        have hfirst : ¬ d.names <+: first.names := by
          simpa [isBelow] using Glob.dropWhile_head hcut
        have hmem : first ∈ rest := (List.dropWhile_sublist isBelow).subset (by simp [hcut])
        have hsorted := hrest.sublist (List.dropWhile_sublist isBelow)
        rw [hcut] at hx hsorted
        rcases List.mem_cons.1 hx with rfl | hx
        · exact hfirst hbegins
        · refine hfirst (prefix_of_between hbegins (hbehind first hmem) ?_)
          exact (List.pairwise_cons.1 hsorted).1 x hx

end Files

namespace Glob

open Files

/-! ## The order of events -/

/-- What is observed of a directory that can be opened and of what is below it, in this order. -/
def reportedAll (list : Listing) (dir : Bytes) (order : List Descendant) : List Event :=
  .listed (listingPath dir) :: .found dir true :: order.flatMap (reported list dir)

/-- The path under which something below a directory is found. -/
def pathOf (dir : Bytes) (d : Descendant) : Bytes := Style.posix.joinAll (dir :: d.names)

theorem foundPaths_reported (list : Listing) (dir : Bytes) (order : List Descendant) :
    foundPaths (order.flatMap (reported list dir)) = order.map (pathOf dir) := by
  induction order with
  | nil => rfl
  | cons d order ih =>
    have hself : foundPaths (reported list dir d) = [pathOf dir d] := by
      rw [reported]
      split <;> rfl
    rw [List.flatMap_cons, foundPaths, List.filterMap_append, ← foundPaths, ← foundPaths, hself, ih]
    rfl

/-- Only what was found is listed. -/
theorem listedDirs_reported (list : Listing) (dir : Bytes) (order : List Descendant) :
    (listedDirs (order.flatMap (reported list dir))).Sublist (order.map (pathOf dir)) := by
  induction order with
  | nil => exact List.nil_sublist _
  | cons d order ih =>
    have hself : (listedDirs (reported list dir d)).Sublist [pathOf dir d] := by
      rw [reported]
      split
      · exact List.Sublist.refl _
      · exact List.nil_sublist _
    rw [List.flatMap_cons, listedDirs, List.filterMap_append, ← listedDirs, ← listedDirs]
    exact hself.append ih

section Once

variable {list : Listing} {dir : Bytes} {order : List Descendant}
  (hnames : ∀ d ∈ order, d.names ≠ [] ∧ ∀ name ∈ d.names, ProperName name)
include hnames

/-- Different names lead to different paths. -/
theorem nodup_paths (horder : order.Pairwise fun a b => a.names < b.names) :
    (order.map (pathOf dir)).Nodup := by
  refine List.pairwise_map.2 (horder.imp_of_mem ?_)
  intro a b ha hb hlt hpath
  rw [names_eq_of_joinAll_eq (hnames a ha).2 (hnames b hb).2 hpath] at hlt
  exact List.lt_irrefl _ hlt

/-- Nothing below a directory has the path of the directory, nor the one under which the directory
is listed. -/
theorem not_mem_paths :
    dir ∉ order.map (pathOf dir) ∧ listingPath dir ∉ order.map (pathOf dir) := by
  have hself : dir ∉ order.map (pathOf dir) := by
    intro hmem
    obtain ⟨d, hd, hpath⟩ := List.mem_map.1 hmem
    have hself : Style.posix.joinAll (dir :: d.names) = Style.posix.joinAll [dir] := by
      rw [Style.joinAll_singleton]
      exact hpath
    exact (hnames d hd).1 (names_eq_of_joinAll_eq (hnames d hd).2 (by simp) hself)
  refine ⟨hself, ?_⟩
  cases dir with
  | cons b rest => exact hself
  | nil =>
    -- the current directory is listed under a name that no entry has
    intro hmem
    obtain ⟨d, hd, hpath⟩ := List.mem_map.1 hmem
    have hwords := congrArg Style.posix.words hpath
    rw [pathOf, words_joinAll (hnames d hd).2] at hwords
    have hdot : d.names = [dotName] := hwords
    have hproper := (hnames d hd).2 dotName (by rw [hdot]; exact List.mem_singleton_self _)
    exact hproper.2.2.1 rfl

theorem nodup_foundPaths (horder : order.Pairwise fun a b => a.names < b.names) :
    (foundPaths (reportedAll list dir order)).Nodup := by
  have hpaths : foundPaths (reportedAll list dir order) = dir :: order.map (pathOf dir) := by
    rw [← foundPaths_reported list]
    rfl
  rw [hpaths]
  exact List.nodup_cons.2 ⟨(not_mem_paths hnames).1, nodup_paths hnames horder⟩

theorem nodup_listedDirs (horder : order.Pairwise fun a b => a.names < b.names) :
    (listedDirs (reportedAll list dir order)).Nodup := by
  have hsub := listedDirs_reported list dir order
  have hdirs : listedDirs (reportedAll list dir order) =
      listingPath dir :: listedDirs (order.flatMap (reported list dir)) := rfl
  rw [hdirs]
  refine List.nodup_cons.2 ⟨fun hmem => ?_, (nodup_paths hnames horder).sublist hsub⟩
  exact (not_mem_paths hnames).2 (hsub.subset hmem)

end Once

/-! ## The walk of everything below a directory -/

variable {fs : FileSystem} {dir : Bytes}

/-- A directory with the recursive segment behind it. -/
def everythingIn (dir : Bytes) : Bytes := Style.posix.join dir [star, star]

theorem walk_everythingIn {list : Listing} (hglob : isGlob dir = false)
    (hdir : Style.posix.needsSep dir = true ∨ ∀ b ∈ dir, Style.posix.isSep b = true)
    (budget : Nat) :
    walk list .posix budget (everythingIn dir) = walkBelow list .posix budget dir := by
  have hsplit : Style.posix.split (everythingIn dir) = ⟨dir, [star, star]⟩ :=
    Style.split_join hdir (List.forall_mem_cons.2 ⟨rfl, List.forall_mem_singleton.2 rfl⟩)
  rw [walk_of_isGlob_tail (by rw [hsplit]; exact hglob) (by rw [hsplit]; rfl), hsplit, follow]
  rfl

/-- The walk of a directory and everything below it is a preorder: the directory comes first, then
what can be reached through real directories that can be opened, in the order of the names, each
once, with what is below something right behind it. A directory that is opened is listed right
after it was found, and a link is found with nothing below it. -/
theorem walk_preorder (fs : FileSystem) (dir : Bytes) (base : Node) (hroot : fs.root.Proper)
    (hglob : isGlob dir = false)
    (hdir : Style.posix.needsSep dir = true ∨ ∀ b ∈ dir, Style.posix.isSep b = true)
    (hbase : fs.dirAt? dir = some base) :
    ∃ order : List Descendant,
      (∀ budget, fs.root.height ≤ budget →
        walk fs.list .posix budget (everythingIn dir) = some (reportedAll fs.list dir order)) ∧
      (∀ d, d ∈ order ↔ Reached fs.list dir base d) ∧
      order.Pairwise (fun a b => a.names < b.names) ∧ Contiguous order ∧
      (foundPaths (reportedAll fs.list dir order)).Nodup ∧
      (listedDirs (reportedAll fs.list dir order)).Nodup ∧
      ∀ names target, base.at? names = some (.link target) →
        ∀ d ∈ order, names <+: d.names → d = ⟨names, false⟩ := by
  obtain ⟨loc, entries, hlookup, rfl⟩ := FileSystem.dirAt?_eq_some_iff.1 hbase
  have hat := (FileSystem.lookup_eq_ok_iff.1 hlookup).2.2
  have hproper := hroot.at? hat
  have hheight := Node.height_le_of_at? hroot hat
  have hmem : ∀ d, d ∈ ((Node.dir entries).opened fs.list dir).contents ↔
      Reached fs.list dir (.dir entries) d := fun d => Node.mem_contents_opened hproper
  have hleft : ((Node.dir entries).opened fs.list dir).Proper := Node.proper_opened hproper dir
  have horder := Node.pairwise_contents hleft
  have hnames : ∀ d ∈ ((Node.dir entries).opened fs.list dir).contents,
      d.names ≠ [] ∧ ∀ name ∈ d.names, ProperName name := by
    intro d hd
    obtain ⟨hne, ⟨child, hchild, -⟩, -⟩ := (hmem d).1 hd
    exact ⟨hne, hproper.name_of_at? hchild⟩
  refine ⟨_, fun budget hbudget => ?_, hmem, horder, contiguous_of_pairwise horder,
    nodup_foundPaths hnames horder, nodup_listedDirs hnames horder, ?_⟩
  · rw [walk_everythingIn hglob hdir]
    exact walkBelow_reported hlookup hproper (Nat.le_trans hheight hbudget)
  · intro names target hlink d hd hbegins
    exact ((hmem d).1 hd).eq_of_link hlink hbegins

/-- What is observed on everything in the tree. What is below `a` comes before the file beside it,
and the link is found and not entered. -/
def linkedEvents : List Event :=
  [.listed (Bytes.ofAscii "."), .found [] true,
    .found (Bytes.ofAscii "a") true, .listed (Bytes.ofAscii "a"),
    .found (Bytes.ofAscii "a/m.c") false, .found (Bytes.ofAscii "a/up.c") false,
    .found (Bytes.ofAscii "n.c") false]

theorem walk_preorder_linkedTree :
    linkedTree.root.Proper ∧ isGlob [] = false ∧
    (Style.posix.needsSep [] = true ∨ ∀ b ∈ ([] : Bytes), Style.posix.isSep b = true) ∧
    linkedTree.dirAt? [] = some linkedTree.root ∧
    ∃ order : List Descendant,
      (∀ budget, linkedTree.root.height ≤ budget →
        walk linkedTree.list .posix budget (everythingIn []) = some linkedEvents) ∧
      reportedAll linkedTree.list [] order = linkedEvents ∧
      ⟨[Bytes.ofAscii "a", Bytes.ofAscii "up.c"], false⟩ ∈ order ∧
      ∀ d ∈ order, [Bytes.ofAscii "a", Bytes.ofAscii "up.c"] <+: d.names → d.isDir = false := by
  have hdir : Style.posix.needsSep [] = true ∨ ∀ b ∈ ([] : Bytes), Style.posix.isSep b = true :=
    .inr (by simp)
  obtain ⟨order, hwalk, hmem, -, -, -, -, hlinks⟩ :=
    walk_preorder linkedTree [] linkedTree.root linkedTree_proper rfl hdir linkedTree_dirAt?
  have hevents : walk linkedTree.list .posix linkedTree.root.height (everythingIn []) =
      some linkedEvents := by cbv
  have hreported : reportedAll linkedTree.list [] order = linkedEvents :=
    Option.some.inj ((hwalk _ (Nat.le_refl _)).symm.trans hevents)
  have hlink : Reached linkedTree.list [] linkedTree.root
      ⟨[Bytes.ofAscii "a", Bytes.ofAscii "up.c"], false⟩ :=
    reached_of_opensBelow (linkedTree_opens _ linkedTree_dirAt?) (by simp)
      ⟨.link (Bytes.ofAscii ".."), rfl, rfl⟩
  refine ⟨linkedTree_proper, rfl, hdir, linkedTree_dirAt?, order,
    fun budget hbudget => hreported ▸ hwalk budget hbudget, hreported, (hmem _).2 hlink, ?_⟩
  intro d hd hbegins
  rw [hlinks _ (Bytes.ofAscii "..") rfl d hd hbegins]

/-! ## A path that is too long -/

/-- A path with dots behind it. -/
def dotted (path : Bytes) (n : Nat) : Bytes :=
  path ++ (List.replicate n [Style.slash, Style.dot]).flatten

theorem dotted_succ (path : Bytes) (n : Nat) :
    dotted path (n + 1) = dotted path n ++ [Style.slash, Style.dot] := by
  simp [dotted, List.replicate_succ']

theorem length_dotted (path : Bytes) (n : Nat) : (dotted path n).length = path.length + 2 * n := by
  simp [dotted, Nat.mul_comm]

theorem mem_dotted {path : Bytes} {n : Nat} {b : UInt8} (h : b ∈ dotted path n) :
    b ∈ path ∨ b = Style.slash ∨ b = Style.dot := by
  rcases List.mem_append.1 h with h | h
  · exact .inl h
  · obtain ⟨part, hpart, hb⟩ := List.mem_flatten.1 h
    obtain rfl := List.eq_of_mem_replicate hpart
    exact .inr (by simpa using hb)

theorem needsSep_dotted {path : Bytes} (h : Style.posix.needsSep path = true) (n : Nat) :
    Style.posix.needsSep (dotted path n) = true := by
  cases n with
  | zero => simpa [dotted] using h
  | succ n =>
    rw [dotted_succ]
    exact Style.needsSep_iff.2 ⟨dotted path n ++ [Style.slash], Style.dot, by simp, rfl⟩

/-- Dots behind the path of a directory lead to the directory, as long as the path is not too
long. -/
theorem lookup_dotted {path : Bytes} {loc : Location} {entries : List (Bytes × Node)}
    (hdir : fs.lookup (listingPath path) = .ok (loc, .dir entries))
    (hneeds : Style.posix.needsSep path = true) (hnul : 0 ∉ path) {n : Nat}
    (hlength : path.length + 2 * n ≤ maxPath) :
    fs.lookup (listingPath (dotted path n)) = .ok (loc, .dir entries) := by
  induction n with
  | zero => simpa [dotted] using hdir
  | succ n ih =>
    have hrefused : FileSystem.refused? (dotted path (n + 1)) = none := by
      refine FileSystem.refused?_eq_none_iff.2 ⟨fun hmem => ?_, by simp [dotted_succ], ?_⟩
      · rcases mem_dotted hmem with hmem | hslash | hdot
        · exact hnul hmem
        · cases hslash
        · cases hdot
      · rw [length_dotted]
        exact hlength
    rw [listingPath_of_ne_nil (by simp [dotted_succ])]
    rw [dotted_succ] at hrefused ⊢
    exact FileSystem.lookup_dot (ih (by omega)) (needsSep_dotted hneeds n) hrefused

/-- A path that is too long is not opened. -/
theorem open?_of_long {path : Bytes} (h : maxPath < path.length) : open? fs.list path = none := by
  rw [← Option.not_isSome_iff_eq_none]
  intro hopen
  obtain ⟨children, hchildren⟩ := Option.isSome_iff_exists.1 hopen
  obtain ⟨loc, entries, hlookup, -⟩ := exists_of_open? hchildren
  obtain ⟨-, -, hlength⟩ :=
    FileSystem.refused?_eq_none_iff.1 (FileSystem.lookup_eq_ok_iff.1 hlookup).1
  rw [listingPath_of_ne_nil (List.ne_nil_of_length_pos (Nat.zero_lt_of_lt h))] at hlength
  exact absurd h (Nat.not_lt.2 hlength)

/-- A file in a directory in a directory. -/
def nestedTree : FileSystem where
  root := .dir [(Bytes.ofAscii "d", .dir [(Bytes.ofAscii "x", .dir [(Bytes.ofAscii "y", .file [])])])]
  cwd := []

theorem nestedTree_proper : nestedTree.root.Proper :=
  Node.proper_singleton (by decide) <| Node.proper_singleton (by decide) <|
    Node.proper_singleton (by decide) (Node.proper_file _)

/-- The outer directory under a path that can be opened, and that leaves no room for a name. -/
def farDir : Bytes := dotted (Bytes.ofAscii "d") 2047

theorem nestedTree_farDir : nestedTree.lookup (listingPath farDir) =
    .ok ([Bytes.ofAscii "d"],
      .dir [(Bytes.ofAscii "x", .dir [(Bytes.ofAscii "y", .file [])])]) := by
  have hd : nestedTree.lookup (Bytes.ofAscii "d") = .ok ([] ++ [Bytes.ofAscii "d"],
      .dir [(Bytes.ofAscii "x", .dir [(Bytes.ofAscii "y", .file [])])]) :=
    FileSystem.lookup_name rfl (by decide) rfl (by simp) (by decide) (by decide)
  exact lookup_dotted hd (by decide) (by decide) (by decide)

theorem farDir_not_isGlob : isGlob farDir = false := by
  have hplain : ∀ b ∈ Bytes.ofAscii "d", isWildcard b = false := List.forall_mem_singleton.2 rfl
  rw [isGlob, ← Bool.not_eq_true, List.any_eq_true]
  rintro ⟨b, hb, hwild⟩
  rcases mem_dotted hb with hb | rfl | rfl
  · rw [hplain b hb] at hwild
    cases hwild
  · cases hwild
  · cases hwild

/-- The inner directory is found, but its path is too long to be opened, and so the file in it is
not found. -/
theorem walk_misses_unopened :
    nestedTree.root.Proper ∧ isGlob farDir = false ∧ Style.posix.needsSep farDir = true ∧
    ∃ base, nestedTree.dirAt? farDir = some base ∧
      base.at? [Bytes.ofAscii "x", Bytes.ofAscii "y"] = some (.file []) ∧
      ∃ events,
        (∀ budget, nestedTree.root.height ≤ budget →
          walk nestedTree.list .posix budget (everythingIn farDir) = some events) ∧
        events = [.listed farDir, .found farDir true,
          .found (Style.posix.join farDir (Bytes.ofAscii "x")) true] ∧
        Style.posix.joinAll [farDir, Bytes.ofAscii "x", Bytes.ofAscii "y"] ∉ foundPaths events := by
  have hneeds : Style.posix.needsSep farDir = true := needsSep_dotted (by decide) _
  have hlong : open? nestedTree.list (Style.posix.join farDir (Bytes.ofAscii "x")) = none := by
    refine open?_of_long ?_
    rw [Style.join_of_not_isAbsolute (by decide), if_pos hneeds, List.length_append, farDir,
      length_dotted]
    decide
  have hopen : (open? nestedTree.list farDir).isSome := by
    rw [open?_of_lookup nestedTree_farDir]
    rfl
  have hlisting : listingPath farDir = farDir := by
    refine listingPath_of_ne_nil fun hnil => ?_
    rw [hnil] at hneeds
    cases hneeds
  have hbase := FileSystem.dirAt?_eq_some_iff.2 ⟨_, _, nestedTree_farDir, rfl⟩
  have hat := (FileSystem.lookup_eq_ok_iff.1 nestedTree_farDir).2.2
  refine ⟨nestedTree_proper, farDir_not_isGlob, hneeds, _, hbase, rfl, _,
    fun budget hbudget => ?_, rfl, ?_⟩
  · have hheight := Node.height_le_of_at? nestedTree_proper hat
    rw [walk_everythingIn farDir_not_isGlob (.inl hneeds),
      walkBelow_reported nestedTree_farDir (nestedTree_proper.at? hat)
        (Nat.le_trans hheight hbudget), reported_opened hopen, hlisting]
    simp [sorted, reported_ofEntry, hlong, Node.isDir, Node.opened_dir, Node.contents_dir]
  · intro hmem
    have hself : Style.posix.joinAll [farDir] = farDir := Style.joinAll_singleton farDir
    have hinner : Style.posix.joinAll [farDir, Bytes.ofAscii "x"] =
        Style.posix.join farDir (Bytes.ofAscii "x") := by
      rw [Style.joinAll_cons_cons, Style.joinAll_singleton]
    have hfound : ∃ names, (∀ name ∈ names, ProperName name) ∧ names.length < 2 ∧
        Style.posix.joinAll (farDir :: [Bytes.ofAscii "x", Bytes.ofAscii "y"]) =
          Style.posix.joinAll (farDir :: names) := by
      rcases List.mem_cons.1 hmem with hsame | hmem
      · exact ⟨[], by simp, by simp, hsame.trans hself.symm⟩
      · exact ⟨[Bytes.ofAscii "x"], by decide, by simp,
          (List.mem_singleton.1 hmem).trans hinner.symm⟩
    obtain ⟨names, hnames, hlength, hsame⟩ := hfound
    rw [← names_eq_of_joinAll_eq (by decide) hnames hsame] at hlength
    exact absurd hlength (by decide)

end Glob

end BuildScript
