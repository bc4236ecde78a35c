import BuildScript.Proofs.Glob.Reordering

/-!
# Trees in another order

Two trees that hold the same, but list the entries of their directories in different orders. A path
is followed by looking up names, so it leads to the same place in both, and what is found there is
the same file, or a directory with the same entries.

* `Node.Relisted`, `FileSystem.Relisted`: nodes and file systems that differ in the order of entries;
* `FileSystem.Relisted.locate_eq`, `FileSystem.Relisted.lookup_cases`: where paths lead;
* `FileSystem.Relisted.sameDirectories`, `FileSystem.Relisted.read_eq`, `FileSystem.Relisted.canOpen_eq`:
  what can be seen of the files;
* `FileSystem.relisted_of_perm`: a tree whose first directory is listed in another order.
-/

namespace BuildScript.Files

open Glob

/-- Nodes that are the same but for the order in which a directory is listed. -/
inductive Node.Relisted : Node → Node → Prop
  | file (content : Bytes) : Relisted (.file content) (.file content)
  | link (target : Bytes) : Relisted (.link target) (.link target)
  | dir {entries others : List (Bytes × Node)} :
      Reordered (entries.map FileSystem.entryOf) (others.map FileSystem.entryOf) →
      Relisted (.dir entries) (.dir others)

namespace FileSystem

/-- File systems that are the same at all locations, but for the order in which directories are
listed. -/
structure Relisted (fs other : FileSystem) : Prop where
  cwd : fs.cwd = other.cwd
  at? : ∀ loc, Option.Rel Node.Relisted (fs.root.at? loc) (other.root.at? loc)

variable {fs other : FileSystem}

namespace Relisted

/-- At a location there is nothing in either of them, or the same but for the order. -/
theorem at?_cases (h : fs.Relisted other) (loc : Location) :
    (fs.root.at? loc = none ∧ other.root.at? loc = none) ∨
      ∃ node node', fs.root.at? loc = some node ∧ other.root.at? loc = some node' ∧
        node.Relisted node' := by
  have hloc := h.at? loc
  generalize fs.root.at? loc = node?, other.root.at? loc = node'? at hloc
  cases hloc with
  | none => exact .inl ⟨rfl, rfl⟩
  | some hnode => exact .inr ⟨_, _, rfl, rfl, hnode⟩

/-- What names stand for in directories at the same location. -/
theorem child? (h : fs.Relisted other) {loc : Location} {entries others : List (Bytes × Node)}
    (hentries : fs.root.at? loc = some (.dir entries))
    (hothers : other.root.at? loc = some (.dir others)) (name : Bytes) :
    Option.Rel Node.Relisted (Files.child? entries name) (Files.child? others name) := by
  have hchild := h.at? (loc ++ [name])
  simpa [Node.at?_append, hentries, hothers, Node.at?_dir, Node.at?_nil] using hchild

/-- Names lead to the same location. -/
theorem follow_eq (h : fs.Relisted other) (links : Nat) (at_ : Location) (rest : List Bytes) :
    fs.follow links at_ rest = other.follow links at_ rest := by
  match rest with
  | [] => rw [follow, follow]
  | name :: rest =>
    conv_lhs => rw [follow]
    conv_rhs => rw [follow]
    obtain ⟨hfs, hother⟩ | ⟨node, node', hfs, hother, hnode⟩ := h.at?_cases at_
    · rw [hfs, hother]
    · rw [hfs, hother]
      cases hnode with
      | file content => rfl
      | link target => rfl
      | @dir entries others hentries =>
        dsimp only
        have hchild := h.child? hfs hother name
        rw [follow_eq h links at_ rest, follow_eq h links at_.dropLast rest]
        generalize Files.child? entries name = child, Files.child? others name = child' at hchild
        cases hchild with
        | none => rfl
        | some hchild =>
          cases hchild with
          | file content =>
            dsimp only
            rw [follow_eq h links (at_ ++ [name]) rest]
          | dir _ =>
            dsimp only
            rw [follow_eq h links (at_ ++ [name]) rest]
          | link target =>
            -- both links have the same text
            cases links with
            | zero => rfl
            | succ links =>
              dsimp only
              rw [follow_eq h links (start target at_) (steps target ++ rest)]
termination_by (links, rest.length)

/-- A path names the same location. -/
theorem locate_eq (h : fs.Relisted other) (path : Bytes) : fs.locate path = other.locate path := by
  rw [locate, locate, h.cwd]
  cases refused? path with
  | none => exact h.follow_eq _ _ _
  | some e => rfl

/-- A path leads to nothing in either of them, or to the same location. -/
theorem lookup_cases (h : fs.Relisted other) (path : Bytes) :
    (∃ e, fs.lookup path = .error e ∧ other.lookup path = .error e) ∨
      ∃ loc node node', fs.lookup path = .ok (loc, node) ∧ other.lookup path = .ok (loc, node') ∧
        node.Relisted node' := by
  rw [lookup, lookup, h.locate_eq]
  cases other.locate path with
  | error e => exact .inl ⟨e, rfl, rfl⟩
  | ok loc =>
    obtain ⟨hfs, hother⟩ | ⟨node, node', hfs, hother, hnode⟩ := h.at?_cases loc
    · exact .inl ⟨.notFound, by simp [Except.bind, hfs], by simp [Except.bind, hother]⟩
    · exact .inr ⟨loc, node, node', by simp [Except.bind, hfs], by simp [Except.bind, hother], hnode⟩

theorem read_eq (h : fs.Relisted other) (path : Bytes) : fs.read path = other.read path := by
  rw [read, read]
  obtain ⟨e, hfs, hother⟩ | ⟨loc, node, node', hfs, hother, hnode⟩ := h.lookup_cases path
  · rw [hfs, hother]
  · rw [hfs, hother]
    cases hnode <;> rfl

theorem canOpen_eq (h : fs.Relisted other) (path : Bytes) : fs.canOpen path = other.canOpen path := by
  rw [canOpen, canOpen]
  obtain ⟨e, hfs, hother⟩ | ⟨loc, node, node', hfs, hother, hnode⟩ := h.lookup_cases path
  · rw [hfs, hother]
  · rw [hfs, hother]
    rfl

/-- The same directories can be listed, each with the same entries. -/
theorem sameDirectories (h : fs.Relisted other) : SameDirectories fs.list other.list := by
  intro path
  obtain ⟨e, hfs, hother⟩ | ⟨loc, node, node', hfs, hother, hnode⟩ := h.lookup_cases path
  · rw [list, list, hfs, hother]
    exact .none
  · cases hnode with
    | file content =>
      rw [list, list, hfs, hother]
      exact .none
    | link target =>
      rw [list, list, hfs, hother]
      exact .none
    | dir hentries =>
      rw [list_of_lookup hfs, list_of_lookup hother]
      exact .some hentries

end Relisted

/-- Names in a proper directory stand for the same when it is listed in another order. -/
theorem child?_of_perm {entries others : List (Bytes × Node)}
    (hnodup : (entries.map Prod.fst).Nodup) (hperm : entries.Perm others) (name : Bytes) :
    Files.child? entries name = Files.child? others name := by
  have hnodup' := (hperm.map Prod.fst).nodup_iff.1 hnodup
  refine Option.ext fun node => ?_
  rw [child?_eq_some_iff hnodup, child?_eq_some_iff hnodup', hperm.mem_iff]

theorem reordered_of_perm {entries others : List (Bytes × Node)}
    (hnodup : (entries.map Prod.fst).Nodup) (hperm : entries.Perm others) :
    Reordered (entries.map entryOf) (others.map entryOf) := by
  refine .of_perm ?_ (hperm.map entryOf)
  rw [List.map_map]
  exact hnodup

/-- A proper tree whose first directory is listed in another order. -/
theorem relisted_of_perm {entries others : List (Bytes × Node)} {cwd : Location}
    (hproper : (Node.dir entries).Proper) (hperm : entries.Perm others) :
    FileSystem.Relisted ⟨.dir entries, cwd⟩ ⟨.dir others, cwd⟩ := by
  refine ⟨rfl, ?_⟩
  intro loc
  cases loc with
  | nil => exact .some (.dir (reordered_of_perm hproper.names.1 hperm))
  | cons name rest =>
    rw [Node.at?_dir, Node.at?_dir, child?_of_perm hproper.names.1 hperm]
    cases hnode : (Files.child? others name).bind (Node.at? · rest) with
    | none => exact .none
    | some node =>
      -- below the first directory the two are the same
      refine .some ?_
      cases node with
      | file content => exact .file content
      | link target => exact .link target
      | dir below =>
        have hat : (Node.dir entries).at? (name :: rest) = some (.dir below) := by
          rw [Node.at?_dir, child?_of_perm hproper.names.1 hperm, hnode]
        exact .dir (reordered_of_perm (hproper (name :: rest) below hat).1 (List.Perm.refl _))

end FileSystem

end BuildScript.Files
