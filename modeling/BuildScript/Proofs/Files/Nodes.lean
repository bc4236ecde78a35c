import BuildScript.Files.Tree
import Mathlib.Data.List.MinMax
import Mathlib.Data.List.Nodup

/-!
# Trees of nodes

A location is followed through directories only, never through a link. In a proper tree the
entries of a directory have different names, and every name is one that a path can hold.

* `Node.at?_append`: a location behind another;
* `Node.Proper`: what names a file system has;
* `Node.induction`: a directory after all of its entries;
* `Node.height`: how deep a tree is.
-/

namespace BuildScript.Files

/-! ## Locations -/

def Node.isDir : Node → Bool
  | .dir _ => true
  | _ => false

theorem Node.isDir_iff {node : Node} : node.isDir = true ↔ ∃ entries, node = .dir entries := by
  cases node <;> simp [isDir]

theorem Node.at?_nil (node : Node) : node.at? [] = some node := rfl

theorem Node.at?_dir (entries : List (Bytes × Node)) (name : Bytes) (rest : Location) :
    (Node.dir entries).at? (name :: rest) = (child? entries name).bind (Node.at? · rest) := rfl

theorem Node.at?_append (node : Node) (xs ys : Location) :
    node.at? (xs ++ ys) = (node.at? xs).bind (Node.at? · ys) := by
  induction xs generalizing node with
  | nil => rfl
  | cons name xs ih =>
    cases node with
    | file _ => rfl
    | link _ => rfl
    | dir entries =>
      rw [List.cons_append, at?_dir, at?_dir, Option.bind_assoc]
      congr 1
      funext child
      exact ih child

/-- What is below something is below a directory. -/
theorem Node.isDir_of_at? {node child : Node} {name : Bytes} {rest : Location}
    (h : node.at? (name :: rest) = some child) : node.isDir = true := by
  cases node with
  | dir _ => rfl
  | file _ => cases h
  | link _ => cases h

/-! ## Names -/

/-- A name that a path can hold, and that is not one of the two with a meaning of their own. -/
def ProperName (name : Bytes) : Prop :=
  name ≠ [] ∧ Path.Style.slash ∉ name ∧ name ≠ dotName ∧ name ≠ dotDotName

instance (name : Bytes) : Decidable (ProperName name) := inferInstanceAs (Decidable (_ ∧ _))

/-- Whether the directories of a tree have proper names, each once. -/
def Node.Proper (node : Node) : Prop :=
  ∀ loc entries, node.at? loc = some (.dir entries) →
    (entries.map Prod.fst).Nodup ∧ ∀ e ∈ entries, ProperName e.1

theorem Node.Proper.at? {node child : Node} {loc : Location} (h : node.Proper)
    (hat : node.at? loc = some child) : child.Proper := by
  intro rest entries hrest
  refine h (loc ++ rest) entries ?_
  rw [at?_append, hat]
  exact hrest

theorem Node.Proper.names {entries : List (Bytes × Node)} (h : (Node.dir entries).Proper) :
    (entries.map Prod.fst).Nodup ∧ ∀ e ∈ entries, ProperName e.1 :=
  h [] entries rfl

theorem child?_eq_some_iff {entries : List (Bytes × Node)} (h : (entries.map Prod.fst).Nodup)
    {name : Bytes} {node : Node} : child? entries name = some node ↔ (name, node) ∈ entries := by
  induction entries with
  | nil => simp [child?]
  | cons e entries ih =>
    obtain ⟨hnew, hrest⟩ := List.nodup_cons.1 h
    rw [child?, List.find?_cons]
    by_cases he : e.1 = name
    · subst he
      rw [beq_self_eq_true, Option.map_some, Option.some.injEq, List.mem_cons]
      constructor
      · rintro rfl
        exact .inl rfl
      · rintro (heq | hmem)
        · exact (congrArg Prod.snd heq).symm
        · exact absurd (List.mem_map_of_mem hmem) hnew
    · rw [beq_false_of_ne he, List.mem_cons]
      constructor
      · intro hchild
        exact .inr ((ih hrest).1 hchild)
      · rintro (rfl | hmem)
        · exact absurd rfl he
        · exact (ih hrest).2 hmem

theorem Node.Proper.child?_iff {entries : List (Bytes × Node)} {name : Bytes} {node : Node}
    (h : (Node.dir entries).Proper) : child? entries name = some node ↔ (name, node) ∈ entries :=
  child?_eq_some_iff h.names.1

theorem Node.Proper.of_mem {entries : List (Bytes × Node)} {e : Bytes × Node}
    (h : (Node.dir entries).Proper) (he : e ∈ entries) : e.2.Proper := by
  have hchild := h.child?_iff.2 he
  have hat : (Node.dir entries).at? [e.1] = some e.2 := by
    rw [at?_dir, hchild]
    rfl
  exact h.at? hat

theorem Node.proper_file (content : Bytes) : (Node.file content).Proper := by
  rintro (_ | ⟨name, loc⟩) entries h <;> cases h

theorem Node.proper_link (target : Bytes) : (Node.link target).Proper := by
  rintro (_ | ⟨name, loc⟩) entries h <;> cases h

theorem Node.proper_dir {entries : List (Bytes × Node)} (hnodup : (entries.map Prod.fst).Nodup)
    (hnames : ∀ e ∈ entries, ProperName e.1) (hentries : ∀ e ∈ entries, e.2.Proper) :
    (Node.dir entries).Proper := by
  rintro (_ | ⟨name, loc⟩) below h
  · cases h
    exact ⟨hnodup, hnames⟩
  · rw [at?_dir] at h
    obtain ⟨child, hchild, hat⟩ := Option.bind_eq_some_iff.1 h
    exact hentries _ ((child?_eq_some_iff hnodup).1 hchild) loc below hat

theorem Node.proper_singleton {name : Bytes} {child : Node} (hname : ProperName name)
    (hchild : child.Proper) : (Node.dir [(name, child)]).Proper :=
  proper_dir (List.nodup_singleton name) (List.forall_mem_singleton.2 hname)
    (List.forall_mem_singleton.2 hchild)

/-! ## Finite trees -/

theorem Node.sizeOf_lt {entries : List (Bytes × Node)} {e : Bytes × Node} (h : e ∈ entries) :
    sizeOf e.2 < sizeOf (Node.dir entries) := by
  have hmem := List.sizeOf_lt_of_mem h
  have hsnd : sizeOf e = 1 + sizeOf e.1 + sizeOf e.2 := by cases e; rfl
  rw [Node.dir.sizeOf_spec]
  omega

/-- What holds of a directory if it holds of all of its entries holds of every node. -/
theorem Node.induction {motive : Node → Prop} (file : ∀ content, motive (.file content))
    (link : ∀ target, motive (.link target))
    (dir : ∀ entries, (∀ e ∈ entries, motive e.2) → motive (.dir entries)) (node : Node) :
    motive node :=
  match node with
  | .file content => file content
  | .link target => link target
  | .dir entries =>
    dir entries fun e he =>
      have := Node.sizeOf_lt he
      Node.induction file link dir e.2
termination_by sizeOf node
decreasing_by exact this

/-- The directories on the longest way down. -/
def Node.height : Node → Nat
  | .dir entries => (entries.attach.map fun e => e.1.2.height).foldr max 0 + 1
  | _ => 0
termination_by node => sizeOf node
decreasing_by exact Node.sizeOf_lt e.2

theorem Node.height_lt {entries : List (Bytes × Node)} {e : Bytes × Node} (h : e ∈ entries) :
    e.2.height < (Node.dir entries).height := by
  rw [Node.height]
  have hmem : e.2.height ∈ entries.attach.map fun e => e.1.2.height :=
    List.mem_map.2 ⟨⟨e, h⟩, List.mem_attach _ _, rfl⟩
  exact Nat.lt_succ_of_le (List.le_max_of_le' 0 hmem (Nat.le_refl _))

theorem Node.height_le_of_at? {node child : Node} {loc : Location}
    (hproper : node.Proper) (h : node.at? loc = some child) : child.height ≤ node.height := by
  induction loc generalizing node with
  | nil =>
    cases h
    exact Nat.le_refl _
  | cons name loc ih =>
    obtain ⟨entries, rfl⟩ := isDir_iff.1 (isDir_of_at? h)
    rw [at?_dir] at h
    obtain ⟨inner, hinner, hat⟩ := Option.bind_eq_some_iff.1 h
    have hmem := hproper.child?_iff.1 hinner
    exact Nat.le_trans (ih (hproper.of_mem hmem) hat) (Nat.le_of_lt (height_lt hmem))

end BuildScript.Files
