import BuildScript.Proofs.Files.Nodes
import BuildScript.Proofs.Path.Absolute

/-!
# Paths of entries

A path that names a directory, with the name of an entry behind it, names that entry, unless
the system refuses the longer path. Links on the way to the directory are followed as before;
the entry itself is where the directory has it.

* `FileSystem.follow_append`: following names from where other names lead;
* `FileSystem.follow_more`: following names with more links to spare;
* `FileSystem.lookup_join`, `FileSystem.lookup_dot`, `FileSystem.lookup_name`: the path of an
  entry;
* `FileSystem.list_of_lookup`, `FileSystem.exists_of_list`: what can be listed.
-/

namespace BuildScript.Files

open BuildScript.Path

/-! ## Names of paths -/

theorem names_eq_words (path : Bytes) : names path = Style.posix.words path := rfl

theorem ProperName.isSep {name : Bytes} (h : ProperName name) :
    ∀ b ∈ name, Style.posix.isSep b = false := by
  intro b hb
  exact beq_false_of_ne fun heq => h.2.1 (heq ▸ hb)

theorem ProperName.not_isAbsolute {name : Bytes} (h : ProperName name) :
    Style.posix.isAbsolute name = false :=
  Style.isAbsolute_segment h.isSep

theorem ProperName.join_eq {name : Bytes} (h : ProperName name) (path : Bytes) :
    Style.posix.join path name =
      path ++ ((if Style.posix.needsSep path then [Style.slash] else []) ++ name) :=
  Style.join_of_not_isAbsolute h.not_isAbsolute

theorem ProperName.join_ne_nil {name : Bytes} (h : ProperName name) (path : Bytes) :
    Style.posix.join path name ≠ [] := by
  rw [h.join_eq]
  simp [h.1]

theorem ProperName.steps_join {name : Bytes} (h : ProperName name) (path : Bytes) :
    steps (Style.posix.join path name) = names path ++ [name] := by
  have hdir : asksForDir (Style.posix.join path name) = false := by
    rw [asksForDir, h.join_eq, ← List.append_assoc, List.getLast?_append_of_ne_nil _ h.1]
    cases hlast : name.getLast? with
    | none => rfl
    | some b => exact h.isSep b (List.mem_of_getLast? hlast)
  rw [steps, hdir, names_eq_words, names_eq_words,
    Style.words_join h.1 h.isSep h.not_isAbsolute]
  exact List.append_nil _

/-- The words of a path that names were put behind. -/
theorem words_joinAll {names : List Bytes} (h : ∀ name ∈ names, ProperName name) (dir : Bytes) :
    Style.posix.words (Style.posix.joinAll (dir :: names)) = Style.posix.words dir ++ names := by
  induction names generalizing dir with
  | nil => rw [Style.joinAll_singleton, List.append_nil]
  | cons name names ih =>
    have hname := h name List.mem_cons_self
    rw [Style.joinAll_cons_cons, ih fun other hother => h other (List.mem_cons_of_mem _ hother),
      Style.words_join hname.1 hname.isSep hname.not_isAbsolute, List.append_assoc]
    rfl

/-- Different names behind a directory are different paths. -/
theorem names_eq_of_joinAll_eq {xs ys : List Bytes} (hxs : ∀ name ∈ xs, ProperName name)
    (hys : ∀ name ∈ ys, ProperName name) {dir : Bytes}
    (h : Style.posix.joinAll (dir :: xs) = Style.posix.joinAll (dir :: ys)) : xs = ys := by
  have hwords := congrArg Style.posix.words h
  rw [words_joinAll hxs, words_joinAll hys] at hwords
  exact List.append_cancel_left hwords

theorem isAbsolute_eq (path : Bytes) : isAbsolute path = Style.posix.isAbsolute path := by
  cases path with
  | nil => rfl
  | cons b rest => simp [isAbsolute, Style.isAbsolute, Style.isSep]

theorem ProperName.start_join {name : Bytes} (h : ProperName name) (path : Bytes)
    (base : Location) :
    FileSystem.start (Style.posix.join path name) base = FileSystem.start path base := by
  have habs : isAbsolute (Style.posix.join path name) = isAbsolute path := by
    cases path with
    | nil =>
      rw [Style.join_nil_left, isAbsolute_eq, h.not_isAbsolute]
      rfl
    | cons b rest =>
      rw [h.join_eq]
      rfl
  rw [FileSystem.start, FileSystem.start, habs]

theorem listingPath_of_ne_nil {path : Bytes} (h : path ≠ []) : Glob.listingPath path = path :=
  if_neg (by simpa using h)

/-- A directory is listed through its names, and perhaps a dot. -/
theorem steps_listingPath (path : Bytes) :
    ∃ dots, steps (Glob.listingPath path) = names path ++ dots ∧ ∀ d ∈ dots, d = dotName := by
  cases path with
  | nil => exact ⟨[dotName], by decide, by simp⟩
  | cons b rest =>
    refine ⟨if asksForDir (b :: rest) then [dotName] else [], rfl, ?_⟩
    split <;> simp

theorem start_listingPath (path : Bytes) (base : Location) :
    FileSystem.start (Glob.listingPath path) base = FileSystem.start path base := by
  cases path with
  | nil => rfl
  | cons b rest => rfl

namespace FileSystem

variable {fs : FileSystem}

/-! ## Following names -/

theorem follow_dots {links : Nat} {at_ loc : Location} {dots : List Bytes}
    (h : fs.follow links at_ dots = .ok loc) (hdots : ∀ d ∈ dots, d = dotName) : loc = at_ := by
  induction dots with
  | nil =>
    rw [follow] at h
    cases h
    rfl
  | cons d dots ih =>
    obtain rfl : d = dotName := hdots d List.mem_cons_self
    rw [follow] at h
    split at h
    · rw [if_pos rfl] at h
      exact ih h fun d hd => hdots d (List.mem_cons_of_mem _ hd)
    · cases h
    · cases h

/-- What following one name can do: it goes on elsewhere, it fails, or the name is missing. -/
theorem follow_cases (fs : FileSystem) (links : Nat) (at_ : Location) (name : Bytes) :
    (∃ links' at' front, (links' = links ∧ front = [] ∨ links' < links) ∧
      ∀ rest, fs.follow links at_ (name :: rest) = fs.follow links' at' (front ++ rest)) ∨
    (∃ e, ∀ rest, fs.follow links at_ (name :: rest) = .error e) ∨
    (fs.root.at? (at_ ++ [name]) = none ∧ ∀ rest, fs.follow links at_ (name :: rest) =
      if rest.isEmpty then .ok (at_ ++ [name]) else .error .notFound) := by
  cases hat : fs.root.at? at_ with
  | none => exact .inr (.inl ⟨.notFound, fun rest => by rw [follow, hat]⟩)
  | some node =>
    cases node with
    | file _ => exact .inr (.inl ⟨.notDirectory, fun rest => by rw [follow, hat]⟩)
    | link _ => exact .inr (.inl ⟨.notDirectory, fun rest => by rw [follow, hat]⟩)
    | dir entries =>
      by_cases hdot : name = dotName
      · refine .inl ⟨links, at_, [], .inl ⟨rfl, rfl⟩, fun rest => ?_⟩
        rw [follow, hat]
        simp [hdot]
      by_cases hdotDot : name = dotDotName
      · refine .inl ⟨links, at_.dropLast, [], .inl ⟨rfl, rfl⟩, fun rest => ?_⟩
        subst hdotDot
        rw [follow, hat]
        simp [hdot]
      by_cases hlong : maxName < name.length
      · refine .inr (.inl ⟨.nameTooLong, fun rest => ?_⟩)
        rw [follow, hat]
        simp [hdot, hdotDot, hlong]
      cases hchild : child? entries name with
      | none =>
        refine .inr (.inr ⟨?_, fun rest => ?_⟩)
        · rw [Node.at?_append, hat, Option.bind_some, Node.at?_dir, hchild]
          rfl
        · rw [follow, hat]
          simp [hdot, hdotDot, hlong, hchild]
      | some child =>
        cases child with
        | link target =>
          cases links with
          | zero =>
            refine .inr (.inl ⟨.tooManyLinks, fun rest => ?_⟩)
            rw [follow, hat]
            simp [hdot, hdotDot, hlong, hchild]
          | succ links =>
            refine .inl ⟨links, start target at_, steps target, .inr (Nat.lt_succ_self _),
              fun rest => ?_⟩
            rw [follow, hat]
            simp [hdot, hdotDot, hlong, hchild]
        | file _ =>
          refine .inl ⟨links, at_ ++ [name], [], .inl ⟨rfl, rfl⟩, fun rest => ?_⟩
          rw [follow, hat]
          simp [hdot, hdotDot, hlong, hchild]
        | dir _ =>
          refine .inl ⟨links, at_ ++ [name], [], .inl ⟨rfl, rfl⟩, fun rest => ?_⟩
          rw [follow, hat]
          simp [hdot, hdotDot, hlong, hchild]

/-- Names that lead to something that exists can be followed first, and other names from there
with the links that are left. -/
theorem follow_append {links : Nat} {at_ loc : Location} {xs dots : List Bytes}
    (h : fs.follow links at_ (xs ++ dots) = .ok loc) (hdots : ∀ d ∈ dots, d = dotName)
    (hloc : (fs.root.at? loc).isSome) :
    ∃ left ≤ links, ∀ ys, fs.follow links at_ (xs ++ ys) = fs.follow left loc ys := by
  match xs with
  | [] =>
    obtain rfl := follow_dots h hdots
    exact ⟨links, Nat.le_refl _, fun ys => rfl⟩
  | name :: xs =>
    rw [List.cons_append] at h
    obtain ⟨links', at', front, hless, hstep⟩ | ⟨e, hfails⟩ | ⟨hmissing, hstep⟩ :=
      follow_cases fs links at_ name
    · -- a link puts names in front of those that are left, and uses up one of the links
      rw [hstep, ← List.append_assoc] at h
      obtain ⟨left, hle, hleft⟩ := follow_append h hdots hloc
      have hlinks : links' ≤ links := hless.elim (fun h => h.1.le) Nat.le_of_lt
      refine ⟨left, hle.trans hlinks, fun ys => ?_⟩
      rw [List.cons_append, hstep, ← List.append_assoc, hleft]
    · rw [hfails] at h
      cases h
    · rw [hstep] at h
      split at h
      · cases h
        rw [hmissing] at hloc
        cases hloc
      · cases h
termination_by (links, xs.length)
decreasing_by
  rcases hless with ⟨rfl, rfl⟩ | hless
  · exact Prod.Lex.right _ (Nat.lt_succ_self _)
  · exact Prod.Lex.left _ _ hless

/-- In the same tree, and with more links to spare, names lead to the same place, unless there
were too few links. -/
theorem follow_more {fs' : FileSystem} (hroot : fs'.root = fs.root) {links more : Nat}
    (hmore : links ≤ more) {at_ : Location} {rest : List Bytes}
    (h : fs.follow links at_ rest ≠ .error .tooManyLinks) :
    fs'.follow more at_ rest = fs.follow links at_ rest := by
  fun_induction fs.follow links at_ rest generalizing more with
  | case1 => rw [follow]
  | case2 links at_ rest entries hat ih =>
    rw [follow, hroot, hat]
    simpa using ih hmore h
  | case3 links at_ rest entries hat hdot ih =>
    rw [follow, hroot, hat]
    simpa [hdot] using ih hmore h
  | case4 links at_ name rest entries hat hdot hdotDot hlong =>
    rw [follow, hroot, hat]
    simp [hdot, hdotDot, hlong]
  | case5 links at_ name rest entries hat hdot hdotDot hlong hchild hempty =>
    rw [follow, hroot, hat]
    simp [hdot, hdotDot, hlong, hchild, hempty]
  | case6 links at_ name rest entries hat hdot hdotDot hlong hchild hempty =>
    rw [follow, hroot, hat]
    simp [hdot, hdotDot, hlong, hchild, hempty]
  | case7 => exact absurd rfl h
  | case8 at_ name rest entries hat hdot hdotDot hlong target hchild links ih =>
    obtain ⟨more, rfl⟩ : ∃ n, more = n + 1 := ⟨more - 1, by omega⟩
    rw [follow, hroot, hat]
    simp only [hdot, hdotDot, hlong, if_false, hchild]
    exact ih (Nat.le_of_succ_le_succ hmore) h
  | case9 links at_ name rest entries hat hdot hdotDot hlong child hnot hchild ih =>
    rw [follow, hroot, hat]
    simp only [hdot, hdotDot, hlong, if_false, hchild]
    cases child with
    | link target => exact absurd rfl (hnot target)
    | file _ => exact ih hmore h
    | dir _ => exact ih hmore h
  | case10 links at_ name rest node hnot hat =>
    rw [follow, hroot, hat]
    cases node with
    | dir entries => exact absurd rfl (hnot entries)
    | file _ => rfl
    | link _ => rfl
  | case11 links at_ name rest hat => rw [follow, hroot, hat]

/-- An entry that is no link is where its directory has it. -/
theorem follow_entry {links : Nat} {loc : Location} {entries : List (Bytes × Node)}
    {name : Bytes} {child : Node} (hdir : fs.root.at? loc = some (.dir entries))
    (hname : ProperName name) (hchild : child? entries name = some child)
    (hlink : ∀ target, child ≠ .link target) :
    fs.follow links loc [name] =
      if maxName < name.length then .error .nameTooLong else .ok (loc ++ [name]) := by
  rw [follow, hdir]
  simp only [hname.2.2.1, hname.2.2.2, if_false, hchild]
  split
  · rfl
  · cases child with
    | link target => exact absurd rfl (hlink target)
    | file _ => rw [follow]
    | dir _ => rw [follow]

/-! ## Looking at paths -/

theorem refused?_eq_none_iff {path : Bytes} :
    refused? path = none ↔ 0 ∉ path ∧ path ≠ [] ∧ path.length ≤ maxPath := by
  unfold refused?
  split_ifs with hnul hempty hlong
  · simp_all
  · simp_all
  · simp [Nat.not_le.2 hlong]
  · simp_all

theorem lookup_eq_ok_iff {path : Bytes} {loc : Location} {node : Node} :
    fs.lookup path = .ok (loc, node) ↔
      refused? path = none ∧ fs.follow maxLinks (start path fs.cwd) (steps path) = .ok loc ∧
        fs.root.at? loc = some node := by
  rw [lookup, locate]
  cases hrefused : refused? path with
  | some e => simp [Except.bind]
  | none =>
    cases hfollow : fs.follow maxLinks (start path fs.cwd) (steps path) with
    | error e => simp [Except.bind]
    | ok found =>
      cases hat : fs.root.at? found with
      | none =>
        simp only [Except.bind, hat, reduceCtorEq, Except.ok.injEq, true_and, false_iff]
        rintro ⟨rfl, hnode⟩
        rw [hat] at hnode
        cases hnode
      | some there =>
        simp only [Except.bind, hat, Except.ok.injEq, Prod.mk.injEq, true_and]
        constructor
        · rintro ⟨rfl, rfl⟩
          exact ⟨rfl, hat⟩
        · rintro ⟨rfl, hnode⟩
          rw [hat] at hnode
          exact ⟨rfl, Option.some.inj hnode⟩

theorem locate_of_lookup {path : Bytes} {found : Location × Node}
    (h : fs.lookup path = .ok found) : fs.locate path = .ok found.1 := by
  obtain ⟨hrefused, hfollow, -⟩ := lookup_eq_ok_iff.1 h
  rw [locate, hrefused]
  exact hfollow

section Entries

variable {path name : Bytes} {loc : Location} {entries : List (Bytes × Node)} {child : Node}

/-- From the names of a directory a path goes on at the place of the directory. -/
theorem follow_names (hdir : fs.lookup (Glob.listingPath path) = .ok (loc, .dir entries)) :
    ∃ left, ∀ rest, fs.follow maxLinks (start path fs.cwd) (names path ++ rest) =
      fs.follow left loc rest := by
  obtain ⟨-, hfollow, hat⟩ := lookup_eq_ok_iff.1 hdir
  obtain ⟨dots, hsteps, hdots⟩ := steps_listingPath path
  rw [start_listingPath, hsteps] at hfollow
  obtain ⟨left, -, hleft⟩ := follow_append hfollow hdots (by rw [hat]; rfl)
  exact ⟨left, hleft⟩

theorem follow_join (hdir : fs.lookup (Glob.listingPath path) = .ok (loc, .dir entries))
    (hname : ProperName name) (hchild : child? entries name = some child)
    (hlink : ∀ target, child ≠ .link target) :
    fs.follow maxLinks (start (Style.posix.join path name) fs.cwd)
        (steps (Style.posix.join path name)) =
      if maxName < name.length then .error .nameTooLong else .ok (loc ++ [name]) := by
  obtain ⟨-, -, hat⟩ := lookup_eq_ok_iff.1 hdir
  obtain ⟨left, hleft⟩ := follow_names hdir
  rw [hname.start_join, hname.steps_join, hleft]
  exact follow_entry hat hname hchild hlink

theorem at?_concat (hat : fs.root.at? loc = some (.dir entries))
    (hchild : child? entries name = some child) :
    fs.root.at? (loc ++ [name]) = some child := by
  rw [Node.at?_append, hat, Option.bind_some, Node.at?_dir, hchild]
  rfl

/-- The path of a directory with the name of an entry behind it leads to the entry. -/
theorem lookup_join (hdir : fs.lookup (Glob.listingPath path) = .ok (loc, .dir entries))
    (hname : ProperName name) (hchild : child? entries name = some child)
    (hlink : ∀ target, child ≠ .link target) (hlength : name.length ≤ maxName)
    (hrefused : refused? (Style.posix.join path name) = none) :
    fs.lookup (Style.posix.join path name) = .ok (loc ++ [name], child) := by
  refine lookup_eq_ok_iff.2 ⟨hrefused, ?_, ?_⟩
  · rw [follow_join hdir hname hchild hlink, if_neg (Nat.not_lt.2 hlength)]
  · exact at?_concat (lookup_eq_ok_iff.1 hdir).2.2 hchild

/-- It leads nowhere else. -/
theorem eq_of_lookup_join (hdir : fs.lookup (Glob.listingPath path) = .ok (loc, .dir entries))
    (hname : ProperName name) (hchild : child? entries name = some child)
    (hlink : ∀ target, child ≠ .link target) {found : Location × Node}
    (hfound : fs.lookup (Style.posix.join path name) = .ok found) :
    found = (loc ++ [name], child) := by
  obtain ⟨-, hfollow, hat⟩ := lookup_eq_ok_iff.1 hfound
  rw [follow_join hdir hname hchild hlink] at hfollow
  split at hfollow
  · cases hfollow
  · have hloc : loc ++ [name] = found.1 := Except.ok.inj hfollow
    rw [← hloc, at?_concat (lookup_eq_ok_iff.1 hdir).2.2 hchild] at hat
    rw [hloc, Option.some.inj hat]

/-- A dot behind the path of a directory leads to the directory. -/
theorem lookup_dot (hdir : fs.lookup (Glob.listingPath path) = .ok (loc, .dir entries))
    (hneeds : Style.posix.needsSep path = true)
    (hrefused : refused? (path ++ [Style.slash, Style.dot]) = none) :
    fs.lookup (path ++ [Style.slash, Style.dot]) = .ok (loc, .dir entries) := by
  obtain ⟨-, -, hat⟩ := lookup_eq_ok_iff.1 hdir
  obtain ⟨left, hleft⟩ := follow_names hdir
  have hstart : start (path ++ [Style.slash, Style.dot]) fs.cwd = start path fs.cwd := by
    cases path with
    | nil => cases hneeds
    | cons b rest => rfl
  have hmore : steps (path ++ [Style.slash, Style.dot]) = names path ++ [dotName] := by
    have hdot : Style.posix.words [Style.dot] = [dotName] := by decide
    rw [steps, names_eq_words, names_eq_words, Style.words_append_cons (by decide), hdot]
    simp [asksForDir, Style.dot, Style.slash]
  refine lookup_eq_ok_iff.2 ⟨hrefused, ?_, hat⟩
  rw [hstart, hmore, hleft, follow, hat]
  simp [follow]

/-- The empty path lists the current directory. -/
theorem lookup_cwd (hcwd : fs.root.at? fs.cwd = some (.dir entries)) :
    fs.lookup (Glob.listingPath []) = .ok (fs.cwd, .dir entries) := by
  have hsteps : steps (Glob.listingPath []) = [dotName] := by decide
  have hself : fs.follow maxLinks fs.cwd [dotName] = .ok fs.cwd := by
    rw [follow, hcwd]
    simp [follow]
  exact lookup_eq_ok_iff.2 ⟨by decide, hsteps ▸ hself, hcwd⟩

/-- The name of an entry of the current directory leads to the entry. -/
theorem lookup_name (hcwd : fs.root.at? fs.cwd = some (.dir entries)) (hname : ProperName name)
    (hchild : child? entries name = some child) (hlink : ∀ target, child ≠ .link target)
    (hlength : name.length ≤ maxName) (hrefused : refused? name = none) :
    fs.lookup name = .ok (fs.cwd ++ [name], child) := by
  have hentry := lookup_join (lookup_cwd hcwd) hname hchild hlink hlength
  rw [Style.join_nil_left] at hentry
  exact hentry hrefused

end Entries

/-! ## Listing -/

/-- What a walk is told about an entry. -/
def entryOf (e : Bytes × Node) : Glob.Entry := ⟨e.1, e.2.isDir⟩

theorem list_of_lookup {path : Bytes} {loc : Location} {entries : List (Bytes × Node)}
    (h : fs.lookup path = .ok (loc, .dir entries)) :
    fs.list path = some (entries.map entryOf) := by
  unfold list
  rw [h]
  refine congrArg some (List.map_congr_left fun e _ => ?_)
  unfold entryOf
  cases e.2 <;> rfl

/-- Only directories can be listed. -/
theorem exists_of_list {path : Bytes} (h : (fs.list path).isSome) :
    ∃ loc entries, fs.lookup path = .ok (loc, .dir entries) := by
  unfold list at h
  split at h
  · rename_i loc entries hlookup
    exact ⟨loc, entries, hlookup⟩
  · cases h

end FileSystem

end BuildScript.Files
