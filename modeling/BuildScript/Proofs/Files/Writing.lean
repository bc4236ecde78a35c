import BuildScript.Proofs.Files.Resolution

/-!
# Changing files

A file that is put where there is a file or nothing changes that file alone. Directories and links
stay as they are, so that every path that led somewhere leads there still.

* `Node.LeadsTo`: a location whose directories are all there;
* `FileSystem.fileAt?`: the content of a file, if there is one;
* `FileSystem.Keeps`: what stays when files are changed and made;
* `FileSystem.fileAt?_setContentAt`, `FileSystem.keeps_setContentAt`: one change;
* `FileSystem.read_of_keeps`: a path leads to the same file afterwards;
* `FileSystem.create_ok`: what a file that could be created says about its path.
-/

namespace BuildScript.Files

open BuildScript.Path

/-! ## Nodes -/

/-- Whether all that is on the way to a location is a directory. -/
def Node.LeadsTo (node : Node) (loc : Location) : Prop :=
  ∀ front name rest, loc = front ++ name :: rest → ∃ entries, node.at? front = some (.dir entries)

theorem child?_setEntry (entries : List (Bytes × Node)) (name other : Bytes) (node : Node) :
    child? (setEntry name node entries) other =
      if other = name then some node else child? entries other := by
  induction entries with
  | nil =>
    by_cases h : other = name
    · subst h
      simp [setEntry, child?]
    · have hne : (name == other) = false := beq_false_of_ne fun heq => h heq.symm
      simp [setEntry, child?, hne, h]
  | cons e entries ih =>
    simp only [child?, setEntry] at ih ⊢
    by_cases hname : e.1 = name
    · subst hname
      by_cases hother : other = e.1
      · simp [hother]
      · have hne : (e.1 == other) = false := beq_false_of_ne fun h => hother h.symm
        simp [hother, hne]
    · rw [beq_false_of_ne hname]
      by_cases hother : e.1 = other
      · subst hother
        simp [hname]
      · simp only [Bool.false_eq_true, if_false, List.find?_cons, beq_false_of_ne hother]
        exact ih

theorem Node.set_dir (entries : List (Bytes × Node)) (new : Node) (name : Bytes) (rest : Location) :
    (Node.dir entries).set new (name :: rest) =
      .dir (setEntry name (Node.set ((child? entries name).getD (.dir [])) new rest) entries) := rfl

theorem Node.leadsTo_of_at? {node child : Node} {loc : Location} (h : node.at? loc = some child) :
    node.LeadsTo loc := by
  rintro front name rest rfl
  rw [at?_append] at h
  obtain ⟨inner, hinner, hbelow⟩ := Option.bind_eq_some_iff.1 h
  obtain ⟨entries, rfl⟩ := isDir_iff.1 (isDir_of_at? hbelow)
  exact ⟨entries, hinner⟩

theorem Node.leadsTo_concat {node : Node} {front : Location} {entries : List (Bytes × Node)}
    (h : node.at? front = some (.dir entries)) (name : Bytes) : node.LeadsTo (front ++ [name]) := by
  intro front' name' rest heq
  rcases List.eq_nil_or_concat' rest with rfl | ⟨rest, last, rfl⟩
  · obtain ⟨rfl, -⟩ := List.append_inj' heq rfl
    exact ⟨entries, h⟩
  · have hlast : front ++ [name] = (front' ++ name' :: rest) ++ [last] := by
      rw [heq, List.append_assoc, List.cons_append]
    have hfront : front = front' ++ name' :: rest := (List.append_inj' hlast rfl).1
    exact leadsTo_of_at? h front' name' rest hfront

theorem Node.LeadsTo.tail {entries : List (Bytes × Node)} {name : Bytes} {rest : Location}
    (h : (Node.dir entries).LeadsTo (name :: rest)) :
    ((child? entries name).getD (.dir [])).LeadsTo rest := by
  intro front name' rest' heq
  obtain ⟨below, hbelow⟩ := h (name :: front) name' rest' (by rw [heq]; rfl)
  rw [at?_dir] at hbelow
  obtain ⟨child, hchild, hat⟩ := Option.bind_eq_some_iff.1 hbelow
  rw [hchild]
  exact ⟨below, hat⟩

/-- What is put at a location is there. -/
theorem Node.at?_set_self {node : Node} {loc : Location} (h : node.LeadsTo loc) (new : Node) :
    (node.set new loc).at? loc = some new := by
  induction loc generalizing node with
  | nil => rfl
  | cons name rest ih =>
    obtain ⟨entries, hnode⟩ := h [] name rest rfl
    obtain rfl : node = .dir entries := Option.some.inj hnode
    rw [set_dir, at?_dir, child?_setEntry, if_pos rfl]
    exact ih h.tail

/-- Where neither of two locations is on the way to the other, a change at one is none at the
other. -/
theorem Node.at?_set_apart {loc other : Location} (hnot : ¬ loc <+: other) (hback : ¬ other <+: loc)
    (node new : Node) : (node.set new loc).at? other = node.at? other := by
  induction loc generalizing node other with
  | nil => exact absurd List.nil_prefix hnot
  | cons name rest ih =>
    cases other with
    | nil => exact absurd List.nil_prefix hback
    | cons first below =>
      cases node with
      | file _ => rfl
      | link _ => rfl
      | dir entries =>
        rw [set_dir, at?_dir, at?_dir, child?_setEntry]
        by_cases hfirst : first = name
        · subst hfirst
          have hrest : ¬ rest <+: below := fun hp => hnot (List.cons_prefix_cons.2 ⟨rfl, hp⟩)
          have hbelow : ¬ below <+: rest := fun hp => hback (List.cons_prefix_cons.2 ⟨rfl, hp⟩)
          rw [if_pos rfl, Option.bind_some, ih hrest hbelow]
          cases hchild : child? entries first with
          | some child => rfl
          | none =>
            -- the directory made on the way has nothing but the new node
            cases below with
            | nil => exact absurd List.nil_prefix hbelow
            | cons _ _ => rfl
        · rw [if_neg hfirst]

/-- What is on the way to a change stays a directory. -/
theorem Node.at?_set_above {front rest : Location} {name : Bytes} {node : Node}
    {entries : List (Bytes × Node)} (h : node.at? front = some (.dir entries)) (new : Node) :
    ∃ entries', (node.set new (front ++ name :: rest)).at? front = some (.dir entries') := by
  induction front generalizing node with
  | nil =>
    obtain rfl : node = .dir entries := Option.some.inj h
    exact ⟨_, rfl⟩
  | cons first front ih =>
    obtain ⟨others, rfl⟩ := isDir_iff.1 (isDir_of_at? h)
    rw [at?_dir] at h
    obtain ⟨child, hchild, hat⟩ := Option.bind_eq_some_iff.1 h
    rw [List.cons_append, set_dir, at?_dir, child?_setEntry, if_pos rfl, hchild]
    exact ih hat

/-! ## Files -/

/-- Two nodes of one sort. Links of one sort have the same target. -/
inductive Node.Alike : Node → Node → Prop where
  | file (content content' : Bytes) : Alike (.file content) (.file content')
  | dir (entries entries' : List (Bytes × Node)) : Alike (.dir entries) (.dir entries')
  | link (target : Bytes) : Alike (.link target) (.link target)

theorem Node.Alike.refl (node : Node) : node.Alike node := by
  cases node with
  | file content => exact .file content content
  | dir entries => exact .dir entries entries
  | link target => exact .link target

theorem Node.Alike.trans {a b c : Node} (h : a.Alike b) (h' : b.Alike c) : a.Alike c := by
  cases h with
  | file content _ =>
    cases h' with
    | file _ content' => exact .file content content'
  | dir entries _ =>
    cases h' with
    | dir _ entries' => exact .dir entries entries'
  | link target => exact h'

namespace FileSystem

variable {fs fs' fs'' : FileSystem} {loc : Location}

/-- The content of the file at a location. -/
def fileAt? (fs : FileSystem) (loc : Location) : Option Bytes :=
  match fs.root.at? loc with
  | some (.file content) => some content
  | _ => none

theorem fileAt?_eq_some_iff {content : Bytes} :
    fs.fileAt? loc = some content ↔ fs.root.at? loc = some (.file content) := by
  rw [fileAt?]
  split
  · rename_i held hat
    rw [hat]
    simp
  · rename_i hnot
    constructor
    · exact nofun
    · intro hat
      exact absurd hat (hnot content)

theorem fileAt?_congr (h : fs.root.at? loc = fs'.root.at? loc) : fs.fileAt? loc = fs'.fileAt? loc := by
  rw [fileAt?, fileAt?, h]

theorem fileAt?_of_dir {entries : List (Bytes × Node)} (h : fs.root.at? loc = some (.dir entries)) :
    fs.fileAt? loc = none := by
  rw [fileAt?, h]

theorem contentAt_eq_getD (fs : FileSystem) (loc : Location) :
    fs.contentAt loc = (fs.fileAt? loc).getD [] := by
  rw [contentAt, fileAt?]
  rcases fs.root.at? loc with _ | _ | _ | _ <;> rfl

theorem contentAt_of_fileAt? {content : Bytes} (h : fs.fileAt? loc = some content) :
    fs.contentAt loc = content := by
  rw [contentAt_eq_getD, h]
  rfl

/-- Whether a file can be put at a location: there is one already, or nothing at all. -/
def TakesFile (fs : FileSystem) (loc : Location) : Prop :=
  fs.root.LeadsTo loc ∧ ∀ node, fs.root.at? loc = some node → ∃ content, node = .file content

theorem takesFile_of_fileAt? {content : Bytes} (h : fs.fileAt? loc = some content) :
    fs.TakesFile loc := by
  have hat := fileAt?_eq_some_iff.1 h
  refine ⟨Node.leadsTo_of_at? hat, ?_⟩
  intro node hnode
  rw [hat] at hnode
  exact ⟨content, (Option.some.inj hnode).symm⟩

theorem TakesFile.at?_below (h : fs.TakesFile loc) (name : Bytes) (rest : Location) :
    fs.root.at? (loc ++ name :: rest) = none := by
  rw [Node.at?_append]
  cases hat : fs.root.at? loc with
  | none => rfl
  | some node =>
    obtain ⟨content, rfl⟩ := h.2 node hat
    rfl

/-- A file that is put somewhere is there, and all other files are as they were. -/
theorem fileAt?_setContentAt (h : fs.TakesFile loc) (content : Bytes) (other : Location) :
    (fs.setContentAt loc content).fileAt? other =
      if other = loc then some content else fs.fileAt? other := by
  have hself : (fs.setContentAt loc content).root.at? loc = some (.file content) :=
    Node.at?_set_self h.1 _
  by_cases hother : other = loc
  · subst hother
    rw [if_pos rfl]
    exact fileAt?_eq_some_iff.2 hself
  rw [if_neg hother]
  by_cases hbelow : loc <+: other
  · obtain ⟨rest, rfl⟩ := hbelow
    cases rest with
    | nil => exact absurd (List.append_nil loc) hother
    | cons name rest =>
      apply fileAt?_congr
      rw [h.at?_below, Node.at?_append, hself]
      rfl
  by_cases habove : other <+: loc
  · obtain ⟨rest, rfl⟩ := habove
    cases rest with
    | nil => exact absurd (List.append_nil other).symm hother
    | cons name rest =>
      obtain ⟨entries, hdir⟩ := h.1 other name rest rfl
      obtain ⟨entries', hdir'⟩ := Node.at?_set_above hdir (.file content)
      rw [fileAt?_of_dir hdir]
      exact fileAt?_of_dir hdir'
  · exact fileAt?_congr (Node.at?_set_apart hbelow habove _ _)

/-- All that is there stays, up to what files hold and to further entries of directories. -/
structure Keeps (fs fs' : FileSystem) : Prop where
  cwd : fs'.cwd = fs.cwd
  node : ∀ loc node, fs.root.at? loc = some node →
    ∃ node', fs'.root.at? loc = some node' ∧ node.Alike node'

theorem Keeps.refl (fs : FileSystem) : fs.Keeps fs :=
  ⟨rfl, fun _ node h => ⟨node, h, .refl node⟩⟩

theorem Keeps.trans (h : fs.Keeps fs') (h' : fs'.Keeps fs'') : fs.Keeps fs'' := by
  refine ⟨h'.cwd.trans h.cwd, ?_⟩
  intro loc node hat
  obtain ⟨node', hat', halike⟩ := h.node loc node hat
  obtain ⟨node'', hat'', halike'⟩ := h'.node loc node' hat'
  exact ⟨node'', hat'', halike.trans halike'⟩

theorem Keeps.dir (h : fs.Keeps fs') {entries : List (Bytes × Node)}
    (hat : fs.root.at? loc = some (.dir entries)) :
    ∃ entries', fs'.root.at? loc = some (.dir entries') := by
  obtain ⟨node', hat', halike⟩ := h.node loc _ hat
  cases halike with
  | dir _ entries' => exact ⟨entries', hat'⟩

theorem Keeps.link (h : fs.Keeps fs') {target : Bytes}
    (hat : fs.root.at? loc = some (.link target)) : fs'.root.at? loc = some (.link target) := by
  obtain ⟨node', hat', halike⟩ := h.node loc _ hat
  cases halike with
  | link _ => exact hat'

theorem Keeps.fileAt? (h : fs.Keeps fs') (hfile : (fs.fileAt? loc).isSome) :
    (fs'.fileAt? loc).isSome := by
  obtain ⟨content, hcontent⟩ := Option.isSome_iff_exists.1 hfile
  obtain ⟨node', hat', halike⟩ := h.node loc _ (fileAt?_eq_some_iff.1 hcontent)
  cases halike with
  | file _ content' => exact Option.isSome_of_eq_some (fileAt?_eq_some_iff.2 hat')

theorem keeps_setContentAt (h : fs.TakesFile loc) (content : Bytes) :
    fs.Keeps (fs.setContentAt loc content) := by
  refine ⟨rfl, ?_⟩
  intro other node hat
  by_cases hbelow : loc <+: other
  · obtain ⟨rest, rfl⟩ := hbelow
    cases rest with
    | nil =>
      rw [List.append_nil] at hat ⊢
      obtain ⟨held, rfl⟩ := h.2 node hat
      exact ⟨_, Node.at?_set_self h.1 _, .file held content⟩
    | cons name rest =>
      rw [h.at?_below] at hat
      cases hat
  by_cases habove : other <+: loc
  · obtain ⟨rest, rfl⟩ := habove
    cases rest with
    | nil =>
      rw [List.append_nil] at hbelow
      exact absurd (List.prefix_refl other) hbelow
    | cons name rest =>
      obtain ⟨entries, hdir⟩ := h.1 other name rest rfl
      obtain ⟨entries', hdir'⟩ := Node.at?_set_above hdir (.file content)
      obtain rfl : node = .dir entries := by
        rw [hdir] at hat
        exact (Option.some.inj hat).symm
      exact ⟨_, hdir', .dir entries entries'⟩
  · refine ⟨node, ?_, .refl node⟩
    rw [← hat]
    exact Node.at?_set_apart hbelow habove _ _

/-! ## Paths -/

theorem child?_eq_at? {entries : List (Bytes × Node)} (h : fs.root.at? loc = some (.dir entries))
    (name : Bytes) : child? entries name = fs.root.at? (loc ++ [name]) := by
  rw [Node.at?_append, h, Option.bind_some, Node.at?_dir]
  cases child? entries name <;> rfl

/-- A name that a directory does not have leads to the place for it. -/
theorem follow_missing {links : Nat} {entries : List (Bytes × Node)} {name : Bytes}
    (hdir : fs.root.at? loc = some (.dir entries)) (hname : ProperName name)
    (hlength : name.length ≤ maxName) (hchild : child? entries name = none) :
    fs.follow links loc [name] = .ok (loc ++ [name]) := by
  have hlong : ¬ maxName < name.length := Nat.not_lt.2 hlength
  rw [follow, hdir]
  simp only [hname.2.2.1, hname.2.2.2, hlong, if_false, hchild]
  rfl

/-- Names that led to a place lead there still, if no link has been put there. -/
theorem follow_of_keeps (h : fs.Keeps fs') {links : Nat} {at_ : Location} {rest : List Bytes}
    (hfollow : fs.follow links at_ rest = .ok loc)
    (hlink : ∀ target, fs'.root.at? loc ≠ some (.link target)) :
    fs'.follow links at_ rest = .ok loc := by
  fun_induction fs.follow links at_ rest with
  | case1 links at_ =>
    rw [follow]
    exact hfollow
  | case2 links at_ rest entries hat ih =>
    obtain ⟨entries', hat'⟩ := h.dir hat
    rw [follow, hat']
    simpa using ih hfollow
  | case3 links at_ rest entries hat hdot ih =>
    obtain ⟨entries', hat'⟩ := h.dir hat
    rw [follow, hat']
    simpa [hdot] using ih hfollow
  | case4 => cases hfollow
  | case5 links at_ name rest entries hat hdot hdotDot hlong hchild hempty =>
    obtain ⟨entries', hat'⟩ := h.dir hat
    obtain rfl : at_ ++ [name] = loc := Except.ok.inj hfollow
    obtain rfl : rest = [] := List.isEmpty_iff.1 hempty
    rw [follow, hat']
    simp only [hdot, hdotDot, hlong, if_false]
    cases hchild' : child? entries' name with
    | none => rfl
    | some child =>
      rw [child?_eq_at? hat'] at hchild'
      cases child with
      | link target => exact absurd hchild' (hlink target)
      | file _ => rw [follow]
      | dir _ => rw [follow]
  | case6 => cases hfollow
  | case7 => cases hfollow
  | case8 at_ name rest entries hat hdot hdotDot hlong target hchild links ih =>
    obtain ⟨entries', hat'⟩ := h.dir hat
    rw [child?_eq_at? hat] at hchild
    have hchild' := h.link hchild
    rw [← child?_eq_at? hat'] at hchild'
    rw [follow, hat']
    simp only [hdot, hdotDot, hlong, if_false, hchild']
    exact ih hfollow
  | case9 links at_ name rest entries hat hdot hdotDot hlong child hnot hchild ih =>
    obtain ⟨entries', hat'⟩ := h.dir hat
    rw [child?_eq_at? hat] at hchild
    obtain ⟨child', hchild', halike⟩ := h.node _ _ hchild
    rw [← child?_eq_at? hat'] at hchild'
    rw [follow, hat']
    simp only [hdot, hdotDot, hlong, if_false, hchild']
    cases halike with
    | link target => exact absurd rfl (hnot target)
    | file _ _ => exact ih hfollow
    | dir _ _ => exact ih hfollow
  | case10 => cases hfollow
  | case11 => cases hfollow

/-- A path leads to a file after changes that it led to before them. -/
theorem read_of_keeps (h : fs.Keeps fs') {path content : Bytes} (hrefused : refused? path = none)
    (hfollow : fs.follow maxLinks (start path fs.cwd) (steps path) = .ok loc)
    (hfile : fs'.fileAt? loc = some content) : fs'.read path = .ok content := by
  have hat := fileAt?_eq_some_iff.1 hfile
  have hfollow' : fs'.follow maxLinks (start path fs'.cwd) (steps path) = .ok loc := by
    rw [h.cwd]
    apply follow_of_keeps h hfollow
    intro target hlink
    rw [hat] at hlink
    cases hlink
  have hlookup : fs'.lookup path = .ok (loc, .file content) :=
    lookup_eq_ok_iff.2 ⟨hrefused, hfollow', hat⟩
  rw [read, hlookup]
  rfl

theorem steps_ne_nil {path : Bytes} (h : path ≠ []) : steps path ≠ [] := by
  by_cases hdir : asksForDir path = true
  · simp [steps, hdir]
  have hneeds : Style.posix.needsSep path = true := by
    cases hlast : path.getLast? with
    | none => exact absurd (List.getLast?_eq_none_iff.1 hlast) h
    | some b =>
      have hb : b ≠ Style.slash := by simpa [asksForDir, hlast] using hdir
      simp [Style.needsSep, hlast, Style.isSep, hb]
  obtain ⟨seps, hcut⟩ := Style.split_cut .posix path
  have hwords : names path = _ ++ [_] :=
    (Style.segments_of_needsSep hneeds).symm.trans (Style.segments_cut hcut h)
  simp [steps, hwords]

theorem start_of_steps_eq_nil {path : Bytes} (h : steps path = []) (base : Location) :
    start path base = base := by
  have hpath : path = [] := by
    by_contra hne
    exact steps_ne_nil hne h
  subst hpath
  rfl

/-- Where names can lead: to a directory, or to where a file is or could be. -/
def Reachable (fs : FileSystem) (loc : Location) : Prop :=
  (∃ entries, fs.root.at? loc = some (.dir entries)) ∨ fs.TakesFile loc

theorem reachable_dropLast {entries : List (Bytes × Node)}
    (h : fs.root.at? loc = some (.dir entries)) : fs.Reachable loc.dropLast := by
  rcases List.eq_nil_or_concat' loc with rfl | ⟨front, name, rfl⟩
  · exact .inl ⟨entries, h⟩
  · rw [List.dropLast_concat]
    exact .inl (Node.leadsTo_of_at? h front name [] rfl)

theorem reachable_entry {entries : List (Bytes × Node)}
    (h : fs.root.at? loc = some (.dir entries)) {name : Bytes}
    (hlink : ∀ target, fs.root.at? (loc ++ [name]) ≠ some (.link target)) :
    fs.Reachable (loc ++ [name]) := by
  have hleads := Node.leadsTo_concat h name
  cases hat : fs.root.at? (loc ++ [name]) with
  | none =>
    refine .inr ⟨hleads, ?_⟩
    intro node hnode
    rw [hat] at hnode
    cases hnode
  | some node =>
    cases node with
    | link target => exact absurd hat (hlink target)
    | dir below => exact .inl ⟨below, hat⟩
    | file content => exact .inr (takesFile_of_fileAt? (fileAt?_eq_some_iff.2 hat))

/-- Names lead through links, but never to one. -/
theorem follow_reaches {links : Nat} {at_ : Location} {rest : List Bytes}
    (hfollow : fs.follow links at_ rest = .ok loc) (hstart : rest = [] → fs.Reachable at_) :
    fs.Reachable loc := by
  fun_induction fs.follow links at_ rest with
  | case1 links at_ =>
    obtain rfl : at_ = loc := Except.ok.inj hfollow
    exact hstart rfl
  | case2 links at_ rest entries hat ih => exact ih hfollow fun _ => .inl ⟨entries, hat⟩
  | case3 links at_ rest entries hat hdot ih => exact ih hfollow fun _ => reachable_dropLast hat
  | case4 => cases hfollow
  | case5 links at_ name rest entries hat hdot hdotDot hlong hchild hempty =>
    obtain rfl : at_ ++ [name] = loc := Except.ok.inj hfollow
    rw [child?_eq_at? hat] at hchild
    apply reachable_entry hat
    intro target hlink
    rw [hchild] at hlink
    cases hlink
  | case6 => cases hfollow
  | case7 => cases hfollow
  | case8 at_ name rest entries hat hdot hdotDot hlong target hchild links ih =>
    apply ih hfollow
    intro hnone
    have hsteps : steps target = [] := (List.append_eq_nil_iff.1 hnone).1
    rw [start_of_steps_eq_nil hsteps]
    exact .inl ⟨entries, hat⟩
  | case9 links at_ name rest entries hat hdot hdotDot hlong child hnot hchild ih =>
    apply ih hfollow
    intro _
    rw [child?_eq_at? hat] at hchild
    apply reachable_entry hat
    intro target hlink
    rw [hchild] at hlink
    exact hnot target (Option.some.inj hlink)
  | case10 => cases hfollow
  | case11 => cases hfollow

theorem locateNew_ok {path : Bytes} (h : fs.locateNew path = .ok loc) :
    fs.locate path = .ok loc ∧ ∀ entries, fs.root.at? loc ≠ some (.dir entries) := by
  rw [locateNew] at h
  split at h
  · -- a path that asks for a directory names no file, whatever it leads to
    cases hlookup : fs.lookup (withoutLastName path) with
    | error e =>
      rw [hlookup] at h
      cases h
    | ok found =>
      rw [hlookup] at h
      obtain ⟨_, _ | _ | _⟩ := found <;> cases h
  · cases hlocate : fs.locate path with
    | error e =>
      rw [hlocate] at h
      cases h
    | ok found =>
      rw [hlocate] at h
      simp only [Except.bind] at h
      split at h
      · cases h
      · rename_i hdir
        cases h
        exact ⟨rfl, hdir⟩

/-- A file that was created is empty and lies where its path leads. -/
theorem create_ok {path : Bytes} (h : fs.create path = .ok (loc, fs')) :
    fs' = fs.setContentAt loc [] ∧ fs.TakesFile loc ∧ refused? path = none ∧
      fs.follow maxLinks (start path fs.cwd) (steps path) = .ok loc := by
  rw [create] at h
  cases hrefused : refused? path with
  | some e =>
    rw [hrefused] at h
    cases h
  | none =>
    have hne : path ≠ [] := by
      rintro rfl
      cases hrefused
    rw [hrefused] at h
    cases hnew : fs.locateNew path with
    | error e =>
      rw [hnew] at h
      cases h
    | ok found =>
      rw [hnew] at h
      obtain ⟨hlocate, hdir⟩ := locateNew_ok hnew
      cases h
      have hfollow : fs.follow maxLinks (start path fs.cwd) (steps path) = .ok loc := by
        rw [locate, hrefused] at hlocate
        exact hlocate
      have hreach : fs.Reachable loc :=
        follow_reaches hfollow fun hnone => absurd hnone (steps_ne_nil hne)
      have htakes : fs.TakesFile loc := by
        rcases hreach with ⟨entries, hat⟩ | htakes
        · exact absurd hat (hdir entries)
        · exact htakes
      exact ⟨rfl, htakes, rfl, hfollow⟩

end FileSystem

end BuildScript.Files
