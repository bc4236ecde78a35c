import BuildScript.Proofs.Glob.Segments
import BuildScript.Proofs.Glob.Ways

/-!
# What a walk finds

A pattern is resolved from the outside in: the last segment follows what the directory part
finds. So a walk finds what the ways through the directory of the pattern lead to, each way once.

* `FileSystem.dirAt?`: the directory that a path opens;
* `follow_way`, `mapM_follow`: what one more segment makes of what was found;
* `walk_eq_ways`: a walk finds the ways, in order;
* `walk_finds_ways`: they are all the alignments of names with segments.
-/

namespace BuildScript

open BuildScript.Path

/-- The directory that a path opens. -/
def Files.FileSystem.dirAt? (fs : FileSystem) (path : Bytes) : Option Node :=
  match fs.lookup (Glob.listingPath path) with
  | .ok (_, .dir entries) => some (.dir entries)
  | _ => none

theorem Files.FileSystem.dirAt?_eq_some_iff {fs : FileSystem} {path : Bytes} {node : Node} :
    fs.dirAt? path = some node ↔
      ∃ loc entries, fs.lookup (Glob.listingPath path) = .ok (loc, .dir entries) ∧
        node = .dir entries := by
  rw [dirAt?]
  split
  · rename_i loc entries h
    rw [h]
    constructor
    · intro heq
      exact ⟨loc, entries, rfl, (Option.some.inj heq).symm⟩
    · rintro ⟨loc', entries', heq, rfl⟩
      cases heq
      rfl
  · rename_i h
    constructor
    · intro heq
      cases heq
    · rintro ⟨loc, entries, heq, -⟩
      exact absurd heq (h loc entries)

namespace Glob

open Files

variable {fs : FileSystem} {dir : Bytes}

theorem opened_dirAt? (hroot : fs.root.Proper) : Opened (fs.dirAt? dir) := by
  intro node hnode
  obtain ⟨loc, entries, hlookup, rfl⟩ := FileSystem.dirAt?_eq_some_iff.1 hnode
  exact ⟨rfl, hroot.at? (FileSystem.lookup_eq_ok_iff.1 hlookup).2.2⟩

/-- The names that a way takes, and whether they lead to a directory. -/
def Way.place (w : Way) : Descendant := ⟨w.names, w.isDir⟩

/-- What is found where a segment leads. An empty segment ends the path in a separator. -/
def foundBy (dir segment : Bytes) (d : Descendant) : Bytes × Bool :=
  (if segment.isEmpty then Style.posix.join (foundAt dir d).1 [] else (foundAt dir d).1, d.isDir)

theorem foundBy_concat (dir segment : Bytes) (w : Way) (d : Descendant) :
    foundBy dir segment (w.concat d).place =
      foundBy (Style.posix.joinAll (dir :: w.names)) segment d := by
  rw [foundBy, foundBy, foundAt, foundAt, Way.place, Way.names_concat, Style.joinAll_cons_append]
  rfl

theorem foundBy_of_ne_nil {segment : Bytes} (h : segment ≠ []) :
    foundBy dir segment = foundAt dir := by
  funext d
  rw [foundBy, if_neg (by simpa using h)]
  rfl

/-! ## One more segment -/

/-- What a segment finds in a directory. -/
theorem follow_dir {path segment : Bytes} {loc : Location} {entries : List (Bytes × Node)}
    (hroot : fs.root.Proper) (hdir : fs.lookup (listingPath path) = .ok (loc, .dir entries))
    (hopens : OpensBelow fs.list path (.dir entries)) :
    ∃ events, founds events = (taking segment (.dir entries)).map (foundBy path segment) ∧
      ∀ budget, fs.root.height ≤ budget →
        follow fs.list .posix budget segment (.found path true) = some events := by
  have hat := (FileSystem.lookup_eq_ok_iff.1 hdir).2.2
  have hproper := hroot.at? hat
  have hheight := Node.height_le_of_at? hroot hat
  by_cases hrec : isRecursive segment = true
  · obtain rfl := isRecursive_iff.1 hrec
    refine ⟨.listed (listingPath path) :: .found path true :: observed path (.dir entries), ?_, ?_⟩
    · have hself : foundAt path ⟨[], true⟩ = (path, true) := by
        rw [foundAt, Style.joinAll_singleton]
      rw [foundBy_of_ne_nil (by decide), taking, if_pos hrec, List.map_cons, hself,
        ← founds_observed]
      rfl
    · intro budget hbudget
      rw [follow, if_pos hrec]
      exact walkBelow_eq hdir hproper hopens (Nat.le_trans hheight hbudget)
  · refine ⟨walkDir fs.list .posix path segment, ?_, fun budget _ => by rw [follow, if_neg hrec]⟩
    rw [taking, if_neg hrec]
    by_cases hempty : segment = []
    · subst hempty
      simp [walkDir, founds, Event.found?, foundBy, foundAt, Style.joinAll_singleton]
    · rw [walkDir_eq hempty hdir hproper, foundBy_of_ne_nil hempty,
        if_neg (by simpa using hempty), List.map_map]
      rfl

section Segment

variable (hroot : fs.root.Proper)
  (hopens : ∀ node ∈ fs.dirAt? dir, OpensBelow fs.list dir node)
include hroot hopens

/-- What a segment makes of a way that was found. -/
theorem follow_way {segment : Bytes} {w : Way}
    (hw : ∃ node, (fs.dirAt? dir).bind (Node.at? · w.names) = some node ∧
      node.isDir = w.isDir) :
    ∃ events, founds events =
        (extend (fs.dirAt? dir) segment w).map (fun w => foundBy dir segment w.place) ∧
      ∀ budget, fs.root.height ≤ budget →
        follow fs.list .posix budget segment
          (.found (foundAt dir w.place).1 w.isDir) = some events := by
  obtain ⟨node, hnode, hisDir⟩ := hw
  have hextend : (extend (fs.dirAt? dir) segment w).map (fun w => foundBy dir segment w.place) =
      (taking segment node).map (foundBy (foundAt dir w.place).1 segment) := by
    rw [extend, hnode]
    simp only [List.map_map]
    exact List.map_congr_left fun d _ => foundBy_concat dir segment w d
  rw [hextend, ← hisDir]
  cases node with
  | file _ => exact ⟨[], rfl, fun budget _ => rfl⟩
  | link _ => exact ⟨[], rfl, fun budget _ => rfl⟩
  | dir children =>
    obtain ⟨base, hbase, hat⟩ := Option.bind_eq_some_iff.1 hnode
    obtain ⟨loc, entries, hlookup, rfl⟩ := FileSystem.dirAt?_eq_some_iff.1 hbase
    have hproper := (opened_dirAt? hroot _ hbase).2
    obtain ⟨hinner, hbelow⟩ := lookup_below hlookup hproper (hopens _ hbase) hat
    exact follow_dir hroot hinner hbelow

/-- What a segment makes of all that was found. -/
theorem mapM_follow {segment : Bytes} {events : List Event} {ws : List Way}
    (hfounds : founds events = ws.map fun w => foundAt dir w.place)
    (hws : ∀ w ∈ ws, ∃ node, (fs.dirAt? dir).bind (Node.at? · w.names) = some node ∧
      node.isDir = w.isDir) :
    ∃ more, founds more.flatten =
        (ws.flatMap (extend (fs.dirAt? dir) segment)).map
          (fun w => foundBy dir segment w.place) ∧
      ∀ budget, fs.root.height ≤ budget →
        events.mapM (follow fs.list .posix budget segment) = some more := by
  induction events generalizing ws with
  | nil =>
    obtain rfl : ws = [] := List.map_eq_nil_iff.1 hfounds.symm
    exact ⟨[], rfl, fun budget _ => rfl⟩
  | cons event events ih =>
    cases event with
    | listed listedDir =>
      obtain ⟨more, hmore, hall⟩ := ih hfounds hws
      refine ⟨[.listed listedDir] :: more, hmore, fun budget hbudget => ?_⟩
      rw [List.mapM_cons, hall budget hbudget]
      rfl
    | found path isDir =>
      cases ws with
      | nil => cases hfounds
      | cons w ws =>
        obtain ⟨hhead, hrest⟩ := List.cons.inj hfounds
        obtain ⟨rfl, rfl⟩ : path = (foundAt dir w.place).1 ∧ isDir = w.isDir :=
          Prod.mk.inj hhead
        obtain ⟨first, hfirst, hfollow⟩ := follow_way hroot hopens (hws w List.mem_cons_self)
        obtain ⟨more, hmore, hall⟩ := ih hrest fun v hv => hws v (List.mem_cons_of_mem _ hv)
        refine ⟨first :: more, ?_, fun budget hbudget => ?_⟩
        · rw [List.flatten_cons, founds_append, hfirst, hmore, List.flatMap_cons, List.map_append]
        · rw [List.mapM_cons, hfollow budget hbudget, hall budget hbudget]
          rfl

end Segment

/-! ## Whole patterns -/

/-- A pattern with one segment follows its directory. -/
theorem walk_of_isGlob_tail {list : Listing} {style : Style} {pattern : Bytes}
    (hhead : isGlob (style.split pattern).head = false)
    (htail : isGlob (style.split pattern).tail = true) (budget : Nat) :
    walk list style budget pattern =
      follow list style budget (style.split pattern).tail
        (.found (style.split pattern).head true) := by
  rw [walk, dif_neg (by simp [hhead]), if_pos htail, follow]

/-- One segment finds the entries that match it. -/
theorem collect_segment {pattern : Bytes} {loc : Location} {entries : List (Bytes × Node)}
    (hhead : isGlob (Style.posix.split pattern).head = false)
    (htail : isGlob (Style.posix.split pattern).tail = true)
    (hrec : isRecursive (Style.posix.split pattern).tail = false)
    (hdir : fs.lookup (listingPath (Style.posix.split pattern).head) = .ok (loc, .dir entries))
    (hproper : (Node.dir entries).Proper) (budget : Nat) :
    collect fs.list .posix budget pattern = some
      (((sorted entries).filter fun e =>
        matchesPattern .posix e.1 (Style.posix.split pattern).tail).map fun e =>
          Style.posix.join (Style.posix.split pattern).head e.1) := by
  have hne : (Style.posix.split pattern).tail ≠ [] := by
    intro hnil
    rw [hnil] at htail
    cases htail
  rw [collect, walk_of_isGlob_tail hhead htail, follow, if_neg (by simp [hrec]), Option.map_some,
    ← map_fst_founds, walkDir_eq hne hdir hproper, List.map_map]
  refine congrArg some (List.map_congr_left fun e _ => ?_)
  exact congrArg Prod.fst (foundAt_ofEntry _ e)

/-- Nothing is found in a directory that cannot be opened. -/
theorem follow_unopened {segment : Bytes} (hne : segment ≠ []) (h : fs.dirAt? dir = none) :
    ∃ events, founds events = [] ∧
      ∀ budget, follow fs.list .posix budget segment (.found dir true) = some events := by
  have hopen : open? fs.list dir = none := by
    cases hlist : fs.list (listingPath dir) with
    | none => rw [open?, hlist]; rfl
    | some listed =>
      obtain ⟨loc, entries, hlookup⟩ := FileSystem.exists_of_list (by rw [hlist]; rfl)
      have := FileSystem.dirAt?_eq_some_iff.2 ⟨loc, entries, hlookup, rfl⟩
      rw [h] at this
      cases this
  refine ⟨[], rfl, fun budget => ?_⟩
  rw [follow, walkBelow, walkDir, hopen]
  simp [hne]

theorem follow_first (hroot : fs.root.Proper)
    (hopens : ∀ node ∈ fs.dirAt? dir, OpensBelow fs.list dir node) {segment : Bytes}
    (hne : segment ≠ []) :
    ∃ events, founds events =
        (ways (fs.dirAt? dir) [segment]).map (fun w => foundBy dir segment w.place) ∧
      ∀ budget, fs.root.height ≤ budget →
        follow fs.list .posix budget segment (.found dir true) = some events := by
  cases hbase : fs.dirAt? dir with
  | none =>
    obtain ⟨events, hfounds, hall⟩ := follow_unopened hne hbase
    exact ⟨events, hfounds, fun budget _ => hall budget⟩
  | some node =>
    have hstart : (fs.dirAt? dir).bind (Node.at? · (⟨[], true⟩ : Way).names) = some node := by
      rw [hbase]
      rfl
    obtain ⟨hisDir, -⟩ := opened_dirAt? hroot node hbase
    obtain ⟨events, hfounds, hall⟩ := follow_way hroot hopens ⟨node, hstart, hisDir⟩
    rw [hbase] at hfounds
    have hplace : (foundAt dir (⟨[], true⟩ : Way).place).1 = dir := Style.joinAll_singleton dir
    rw [hplace] at hall
    exact ⟨events, by simpa [ways] using hfounds, hall⟩

/-- The path to which a way leads. An empty last segment ends it in a separator. -/
def Way.path (dir : Bytes) (segments : List Bytes) (w : Way) : Bytes :=
  if segments.getLast? = some [] then
    Style.posix.join (Style.posix.joinAll (dir :: w.names)) []
  else Style.posix.joinAll (dir :: w.names)

theorem path_concat (dir : Bytes) (segments : List Bytes) (segment : Bytes) (w : Way) :
    (w.path dir (segments ++ [segment]), w.isDir) = foundBy dir segment w.place := by
  rw [Way.path, foundBy, List.getLast?_concat]
  cases segment <;> rfl

theorem path_of_ne_nil {segments : List Bytes} (h : ∀ segment ∈ segments, segment ≠ [])
    (dir : Bytes) (w : Way) : (w.path dir segments, w.isDir) = foundAt dir w.place := by
  have hlast : segments.getLast? ≠ some [] := by
    intro hlast
    exact h [] (List.mem_of_getLast? hlast) rfl
  rw [Way.path, if_neg hlast]
  rfl

/-- A walk finds the ways through the directory of its pattern, segment by segment. -/
theorem walk_eq_ways (hroot : fs.root.Proper) {pattern : Bytes} (hglob : isGlob pattern = true)
    (hopens : ∀ node ∈ fs.dirAt? (globDir .posix pattern),
      OpensBelow fs.list (globDir .posix pattern) node) :
    ∃ events, founds events =
        (ways (fs.dirAt? (globDir .posix pattern)) (globSegments .posix pattern)).map
          (fun w => (w.path (globDir .posix pattern) (globSegments .posix pattern), w.isDir)) ∧
      ∀ budget, fs.root.height ≤ budget → walk fs.list .posix budget pattern = some events := by
  obtain ⟨hhead, hneeds, hsegments, hdir⟩ | ⟨hhead, htail, hsegments, hdir⟩ :=
    globCases .posix hglob
  · -- no segment of the directory part is empty, so its ways lead to paths as they are
    rw [hdir] at hopens
    obtain ⟨events, hfounds, hwalk⟩ := walk_eq_ways hroot hhead hopens
    simp only [path_of_ne_nil (globSegments_ne_nil hneeds)] at hfounds
    obtain ⟨more, hmore, hall⟩ := mapM_follow hroot hopens hfounds fun w hw =>
      ((mem_ways (opened_dirAt? hroot)).1 hw).leads
    refine ⟨more.flatten, ?_, fun budget hbudget => ?_⟩
    · simp only [hsegments, hdir, path_concat, ways_concat]
      exact hmore
    · rw [walk, dif_pos hhead, hwalk budget hbudget, Option.bind_some, hall budget hbudget]
      rfl
  · rw [hdir] at hopens
    have hne : (Style.posix.split pattern).tail ≠ [] := by
      intro hnil
      rw [hnil] at htail
      cases htail
    obtain ⟨events, hfounds, hall⟩ := follow_first hroot hopens hne
    refine ⟨events, ?_, fun budget hbudget => ?_⟩
    · rw [hfounds, hsegments, hdir]
      refine List.map_congr_left fun w _ => ?_
      exact (path_concat _ [] _ w).symm
    · rw [walk_of_isGlob_tail hhead htail, hall budget hbudget]
termination_by pattern.length
decreasing_by exact split_head_lt hhead

/-- What a walk means, on every proper tree whose directories can be opened: it ends, and it
finds what the names that can be aligned with the segments of its pattern lead to, once for each
alignment. -/
theorem walk_finds_ways (fs : FileSystem) (pattern : Bytes) (hroot : fs.root.Proper)
    (hglob : isGlob pattern = true)
    (hopens : ∀ node ∈ fs.dirAt? (globDir .posix pattern),
      OpensBelow fs.list (globDir .posix pattern) node) :
    ∃ (events : List Event) (found : List Way),
      (∀ budget, fs.root.height ≤ budget → walk fs.list .posix budget pattern = some events) ∧
      (found.map Way.taken).Nodup ∧
      (∀ w, w ∈ found ↔
        IsWay (fs.dirAt? (globDir .posix pattern)) (globSegments .posix pattern) w) ∧
      founds events = found.map fun w =>
        (w.path (globDir .posix pattern) (globSegments .posix pattern), w.isDir) := by
  obtain ⟨events, hfounds, hwalk⟩ := walk_eq_ways hroot hglob hopens
  have hbase : Opened (fs.dirAt? (globDir .posix pattern)) := opened_dirAt? hroot
  exact ⟨events, _, hwalk, nodup_ways hbase _, fun w => mem_ways hbase, hfounds⟩

/-- A directory with a file and a link that leads back up, beside another file. -/
def linkedTree : FileSystem where
  root := .dir [
    (Bytes.ofAscii "a", .dir [
      (Bytes.ofAscii "m.c", .file []),
      (Bytes.ofAscii "up.c", .link (Bytes.ofAscii ".."))]),
    (Bytes.ofAscii "n.c", .file [])]
  cwd := []

theorem linkedTree_proper : linkedTree.root.Proper := by
  refine Node.proper_dir (by decide) (by decide) ?_
  simp only [List.mem_cons, List.not_mem_nil, or_false, forall_eq_or_imp, forall_eq]
  refine ⟨Node.proper_dir (by decide) (by decide) ?_, Node.proper_file _⟩
  simp only [List.mem_cons, List.not_mem_nil, or_false, forall_eq_or_imp, forall_eq]
  exact ⟨Node.proper_file _, Node.proper_link _⟩

theorem linkedTree_dirAt? : linkedTree.dirAt? [] = some linkedTree.root := by
  have hsteps : steps (listingPath []) = [dotName] := rfl
  have hfollow : linkedTree.follow maxLinks (FileSystem.start (listingPath []) []) [dotName] =
      .ok [] := by
    simp [FileSystem.follow, FileSystem.start, linkedTree, Node.at?, isAbsolute, listingPath,
      Style.dot, Style.slash]
  rw [← hsteps] at hfollow
  exact FileSystem.dirAt?_eq_some_iff.2
    ⟨[], _, FileSystem.lookup_eq_ok_iff.2 ⟨by decide, hfollow, rfl⟩, rfl⟩

theorem linkedTree_opens : ∀ node ∈ linkedTree.dirAt? [], OpensBelow linkedTree.list [] node := by
  intro node hnode
  obtain ⟨loc, entries, hlookup, rfl⟩ := FileSystem.dirAt?_eq_some_iff.1 hnode
  rw [linkedTree_dirAt?] at hnode
  cases hnode
  refine opensBelow_of_fits hlookup linkedTree_proper ?_
  intro names children hne hat
  have hmem : ⟨names, true⟩ ∈ linkedTree.root.contents :=
    (Node.mem_contents linkedTree_proper).2 ⟨hne, _, hat, rfl⟩
  obtain rfl : names = [Bytes.ofAscii "a"] := by
    simpa [linkedTree, Node.mem_contents_dir, Node.contents_file, Node.contents_link,
      Descendant.ofEntry, Descendant.under, Node.isDir] using hmem
  exact ⟨rfl, by decide⟩

/-- A file below a real directory is found, and what is behind the link is not entered. -/
theorem walk_finds_ways_linkedTree :
    linkedTree.root.Proper ∧ isGlob (Bytes.ofAscii "**/*.c") = true ∧
    (∀ node ∈ linkedTree.dirAt? [], OpensBelow linkedTree.list [] node) ∧
    ∃ events, (∀ budget, linkedTree.root.height ≤ budget →
        walk linkedTree.list .posix budget (Bytes.ofAscii "**/*.c") = some events) ∧
      (Bytes.ofAscii "a/m.c", false) ∈ founds events := by
  have hdir : globDir .posix (Bytes.ofAscii "**/*.c") = [] := rfl
  have hsegments : globSegments .posix (Bytes.ofAscii "**/*.c") =
      [Bytes.ofAscii "**", Bytes.ofAscii "*.c"] := rfl
  obtain ⟨events, found, hwalk, -, hfound, hfounds⟩ :=
    walk_finds_ways linkedTree (Bytes.ofAscii "**/*.c") linkedTree_proper rfl
      (by rw [hdir]; exact linkedTree_opens)
  refine ⟨linkedTree_proper, rfl, linkedTree_opens, events, hwalk, ?_⟩
  have hway : (⟨[[Bytes.ofAscii "a"], [Bytes.ofAscii "m.c"]], false⟩ : Way) ∈ found := by
    rw [hfound, hdir, hsegments, linkedTree_dirAt?]
    refine ⟨.cons (.all _) (.cons ?_ .nil), ⟨.file [], rfl, rfl⟩, ?_⟩
    · exact .one (by decide) (by decide) (by cbv)
    · intro h
      cases h
  rw [hfounds]
  refine List.mem_map.2 ⟨_, hway, ?_⟩
  rw [hdir, hsegments]
  rfl

end Glob

end BuildScript
