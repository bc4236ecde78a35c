import BuildScript.Proofs.Glob.Descent

/-!
# Names aligned with segments

Every segment of a pattern takes some of the names on the way down from a directory, in order.
All the ways to align names that are there with the segments are enumerated segment by segment,
each once.

* `Covers`: the names that a segment takes;
* `IsWay`: names that are there, cut into parts for the segments;
* `taking`, `extend`, `ways`: the enumeration, for one segment, for one more, for all;
* `isWay_concat_iff`: a way with one more segment goes on from a directory;
* `mem_ways`, `nodup_ways`: all the ways, each once.
-/

namespace BuildScript.Glob

open BuildScript.Path
open BuildScript.Files

/-! ## Alignments -/

/-- What names a segment takes. A segment that ends a pattern in a separator takes none. -/
inductive Covers : Bytes → List Bytes → Prop
  | all (names : List Bytes) : Covers [star, star] names
  | one {segment name : Bytes} : segment ≠ [star, star] → segment ≠ [] →
      matchesPattern .posix name segment = true → Covers segment [name]
  | none : Covers [] []

/-- The names that each segment takes, one list for each of them. -/
structure Way where
  taken : List (List Bytes)
  isDir : Bool
  deriving DecidableEq, Repr

/-- All the names, in order. -/
def Way.names (w : Way) : List Bytes := w.taken.flatten

/-- A way whose last segment takes some more names. -/
def Way.concat (w : Way) (d : Descendant) : Way := ⟨w.taken ++ [d.names], d.isDir⟩

/-- Whether a way aligns names that are there with segments. Every name but the last is that of
a directory and no link, because locations lead through nothing else, and so is the last if the
last segment takes none. Without a directory to start in there is no way. -/
structure IsWay (base : Option Node) (segments : List Bytes) (w : Way) : Prop where
  covers : List.Forall₂ Covers segments w.taken
  leads : ∃ node, base.bind (Node.at? · w.names) = some node ∧ node.isDir = w.isDir
  ends : w.taken.getLast? = some [] → w.isDir = true

/-! ## One segment -/

theorem covers_nil_iff {names : List Bytes} : Covers [] names ↔ names = [] := by
  constructor
  · rintro (_ | ⟨-, hne, -⟩ | _)
    · exact absurd rfl hne
    · rfl
  · rintro rfl
    exact .none

theorem covers_iff {segment : Bytes} {names : List Bytes} (hrec : segment ≠ [star, star])
    (hne : segment ≠ []) :
    Covers segment names ↔
      ∃ name, names = [name] ∧ matchesPattern .posix name segment = true := by
  constructor
  · rintro (_ | ⟨-, -, hmatch⟩ | _)
    · exact absurd rfl hrec
    · exact ⟨_, rfl, hmatch⟩
    · exact absurd rfl hne
  · rintro ⟨name, rfl, hmatch⟩
    exact .one hrec hne hmatch

/-- What one segment takes in a directory. -/
def taking (segment : Bytes) : Node → List Descendant
  | .dir entries =>
    if isRecursive segment then ⟨[], true⟩ :: (Node.dir entries).contents
    else if segment.isEmpty then [⟨[], true⟩]
    else ((sorted entries).filter fun e => matchesPattern .posix e.1 segment).map .ofEntry
  | _ => []

theorem isRecursive_iff {segment : Bytes} : isRecursive segment = true ↔ segment = [star, star] :=
  beq_iff_eq

/-- A segment takes the names that it covers, if they lead to something. -/
theorem mem_taking {segment : Bytes} {node : Node} (hproper : node.Proper) {d : Descendant} :
    d ∈ taking segment node ↔ Covers segment d.names ∧ node.isDir = true ∧
      ∃ child, node.at? d.names = some child ∧ child.isDir = d.isDir := by
  cases node with
  | file _ => simp [taking, Node.isDir]
  | link _ => simp [taking, Node.isDir]
  | dir entries =>
    obtain ⟨names, isDir⟩ := d
    have hself : (∃ child, (Node.dir entries).at? [] = some child ∧ child.isDir = isDir) ↔
        isDir = true := by
      simp [Node.at?_nil, Node.isDir, eq_comm]
    have hthere : (Node.dir entries).isDir = true := rfl
    rw [taking]
    split
    · rename_i hrec
      obtain rfl := isRecursive_iff.1 hrec
      rw [List.mem_cons, Node.mem_contents hproper]
      cases names with
      | nil => simp [hself, hthere, Covers.all]
      | cons name names => simp [hthere, Covers.all]
    · rename_i hrec
      split
      · rename_i hempty
        obtain rfl := List.isEmpty_iff.1 hempty
        rw [List.mem_singleton, covers_nil_iff, Descendant.mk.injEq]
        constructor
        · rintro ⟨rfl, rfl⟩
          exact ⟨rfl, rfl, hself.2 rfl⟩
        · rintro ⟨rfl, -, hchild⟩
          exact ⟨rfl, hself.1 hchild⟩
      · rename_i hempty
        have hrec : segment ≠ [star, star] := fun h => hrec (isRecursive_iff.2 h)
        have hne : segment ≠ [] := fun h => hempty (List.isEmpty_iff.2 h)
        rw [covers_iff hrec hne, List.mem_map]
        constructor
        · rintro ⟨e, he, heq⟩
          obtain ⟨he, hmatch⟩ := List.mem_filter.1 he
          cases heq
          have hchild := hproper.child?_iff.2 (mem_sorted.1 he)
          refine ⟨⟨e.1, rfl, hmatch⟩, rfl, e.2, ?_, rfl⟩
          rw [Node.at?_dir, hchild]
          rfl
        · rintro ⟨⟨name, hnames, hmatch⟩, -, child, hat, hdir⟩
          obtain rfl : names = [name] := hnames
          obtain rfl : child.isDir = isDir := hdir
          rw [Node.at?_dir] at hat
          obtain ⟨child', hchild, hat⟩ := Option.bind_eq_some_iff.1 hat
          obtain rfl : child' = child := Option.some.inj hat
          have hmem := hproper.child?_iff.1 hchild
          exact ⟨(name, child'), List.mem_filter.2 ⟨mem_sorted.2 hmem, hmatch⟩, rfl⟩

/-- It takes them once. -/
theorem nodup_taking {segment : Bytes} {node : Node} (hproper : node.Proper) :
    ((taking segment node).map Descendant.names).Nodup := by
  cases node with
  | file _ => simp [taking]
  | link _ => simp [taking]
  | dir entries =>
    rw [taking]
    split
    · rw [List.map_cons, List.nodup_cons]
      constructor
      · intro hmem
        obtain ⟨d, hd, hnames⟩ := List.mem_map.1 hmem
        exact ((Node.mem_contents hproper).1 hd).1 hnames
      · rw [List.Nodup, List.pairwise_map]
        refine (Node.pairwise_contents hproper).imp ?_
        intro a b hlt heq
        rw [heq] at hlt
        exact List.lt_irrefl _ hlt
    · split
      · simp
      · rw [List.map_map, List.Nodup, List.pairwise_map]
        refine ((pairwise_sorted hproper.names.1).filter _).imp ?_
        intro a b hlt heq
        have heq : a.1 = b.1 := List.head_eq_of_cons_eq heq
        rw [heq] at hlt
        exact List.lt_irrefl _ hlt

/-! ## All segments -/

/-- What a way becomes with one more segment. -/
def extend (base : Option Node) (segment : Bytes) (w : Way) : List Way :=
  match base.bind (Node.at? · w.names) with
  | some node => (taking segment node).map w.concat
  | none => []

/-- All the ways through a directory, if there is one. -/
def ways (base : Option Node) (segments : List Bytes) : List Way :=
  segments.foldl (fun ws segment => ws.flatMap (extend base segment))
    (base.toList.map fun _ => ⟨[], true⟩)

theorem ways_concat (base : Option Node) (segments : List Bytes) (segment : Bytes) :
    ways base (segments ++ [segment]) = (ways base segments).flatMap (extend base segment) := by
  rw [ways, List.foldl_append]
  rfl

theorem Way.names_concat (w : Way) (d : Descendant) : (w.concat d).names = w.names ++ d.names := by
  simp [Way.names, Way.concat]

/-- What a file system can open as the directory of a pattern. -/
def Opened (base : Option Node) : Prop :=
  ∀ node ∈ base, node.isDir = true ∧ node.Proper

theorem proper_of_bind {base : Option Node} (hbase : Opened base) {names : List Bytes}
    {node : Node} (h : base.bind (Node.at? · names) = some node) : node.Proper := by
  obtain ⟨dir, hdir, hat⟩ := Option.bind_eq_some_iff.1 h
  exact (hbase dir hdir).2.at? hat

theorem bind_at?_append (base : Option Node) (xs ys : List Bytes) :
    base.bind (Node.at? · (xs ++ ys)) =
      (base.bind (Node.at? · xs)).bind (Node.at? · ys) := by
  cases base with
  | none => rfl
  | some node => exact Node.at?_append node xs ys

theorem mem_extend {base : Option Node} (hbase : Opened base) {segment : Bytes} {w w' : Way} :
    w' ∈ extend base segment w ↔
      ∃ d node, w' = w.concat d ∧ base.bind (Node.at? · w.names) = some node ∧
        Covers segment d.names ∧ node.isDir = true ∧
        ∃ child, node.at? d.names = some child ∧ child.isDir = d.isDir := by
  rw [extend]
  split
  · rename_i node hnode
    rw [List.mem_map]
    constructor
    · rintro ⟨d, hd, rfl⟩
      exact ⟨d, node, rfl, hnode, (mem_taking (proper_of_bind hbase hnode)).1 hd⟩
    · rintro ⟨d, node', rfl, hnode', htaking⟩
      obtain rfl : node = node' := Option.some.inj (hnode.symm.trans hnode')
      exact ⟨d, (mem_taking (proper_of_bind hbase hnode)).2 htaking, rfl⟩
  · rename_i hnone
    constructor
    · intro h
      cases h
    · rintro ⟨d, node, -, hnode, -⟩
      rw [hnone] at hnode
      cases hnode

theorem forall₂_concat_left {α β : Type} {R : α → β → Prop} {xs : List α} {x : α} {zs : List β}
    (h : List.Forall₂ R (xs ++ [x]) zs) :
    ∃ ys y, zs = ys ++ [y] ∧ List.Forall₂ R xs ys ∧ R x y := by
  induction xs generalizing zs with
  | nil =>
    obtain ⟨y, ys, hxy, hnil, rfl⟩ := List.forall₂_cons_left_iff.1 h
    cases hnil
    exact ⟨[], y, rfl, .nil, hxy⟩
  | cons first xs ih =>
    obtain ⟨y, rest, hfirst, hrest, rfl⟩ := List.forall₂_cons_left_iff.1 h
    obtain ⟨ys, last, rfl, hys, hlast⟩ := ih hrest
    exact ⟨y :: ys, last, rfl, .cons hfirst hys, hlast⟩

/-- A way with one more segment goes on from a directory. -/
theorem isWay_concat_iff {base : Option Node} (hbase : Opened base) {segments : List Bytes}
    {segment : Bytes} {w' : Way} :
    IsWay base (segments ++ [segment]) w' ↔
      ∃ w, IsWay base segments w ∧ w' ∈ extend base segment w := by
  constructor
  · rintro ⟨hcovers, ⟨child, hat, hdir⟩, hends⟩
    obtain ⟨taken, isDir⟩ := w'
    obtain ⟨before, names, rfl, hbefore, hnames⟩ := forall₂_concat_left hcovers
    rw [Way.names, List.flatten_append, List.flatten_singleton, bind_at?_append] at hat
    obtain ⟨node, hnode, hat⟩ := Option.bind_eq_some_iff.1 hat
    -- either more names follow, or the last segment takes none
    have hisDir : node.isDir = true := by
      cases names with
      | nil =>
        cases hat
        exact hdir.trans (hends (by simp))
      | cons name names => exact Node.isDir_of_at? hat
    refine ⟨⟨before, true⟩, ⟨hbefore, ⟨node, hnode, hisDir⟩, fun _ => rfl⟩, ?_⟩
    exact (mem_extend hbase).2 ⟨⟨names, isDir⟩, node, rfl, hnode, hnames, hisDir, child, hat, hdir⟩
  · rintro ⟨w, hw, hmem⟩
    obtain ⟨d, node, rfl, hnode, hcovers, hisDir, child, hat, hdir⟩ := (mem_extend hbase).1 hmem
    refine ⟨?_, ⟨child, ?_, hdir⟩, ?_⟩
    · exact List.rel_append hw.covers (.cons hcovers .nil)
    · rw [Way.names_concat, bind_at?_append, hnode]
      exact hat
    · intro hlast
      have hnames : d.names = [] := by simpa [Way.concat] using hlast
      rw [hnames] at hat
      cases hat
      exact hdir.symm.trans hisDir

/-- All the ways are found. -/
theorem mem_ways {base : Option Node} (hbase : Opened base) {segments : List Bytes} {w : Way} :
    w ∈ ways base segments ↔ IsWay base segments w := by
  induction segments using List.reverseRecOn generalizing w with
  | nil =>
    have hstart : w ∈ ways base [] ↔ base.isSome ∧ w = ⟨[], true⟩ := by
      cases base <;> simp [ways]
    rw [hstart]
    constructor
    · rintro ⟨hsome, rfl⟩
      obtain ⟨node, rfl⟩ := Option.isSome_iff_exists.1 hsome
      exact ⟨.nil, ⟨node, rfl, (hbase node rfl).1⟩, fun _ => rfl⟩
    · rintro ⟨hcovers, ⟨child, hat, hdir⟩, -⟩
      obtain ⟨taken, isDir⟩ := w
      cases hcovers
      obtain ⟨node, hnode, hat⟩ := Option.bind_eq_some_iff.1 hat
      obtain rfl : node = child := Option.some.inj hat
      obtain rfl : true = isDir := (hbase node hnode).1.symm.trans hdir
      exact ⟨by rw [hnode]; rfl, rfl⟩
  | append_singleton segments segment ih =>
    rw [ways_concat, List.mem_flatMap, isWay_concat_iff hbase]
    constructor
    · rintro ⟨v, hv, hw⟩
      exact ⟨v, ih.1 hv, hw⟩
    · rintro ⟨v, hv, hw⟩
      exact ⟨v, ih.2 hv, hw⟩

theorem nodup_extend {base : Option Node} (hbase : Opened base) (segment : Bytes) (w : Way) :
    ((extend base segment w).map Way.taken).Nodup := by
  rw [extend]
  split
  · rename_i node hnode
    have hnodup := @nodup_taking segment node (proper_of_bind hbase hnode)
    rw [List.Nodup, List.pairwise_map] at hnodup
    rw [List.map_map, List.Nodup, List.pairwise_map]
    refine hnodup.imp ?_
    intro a b hne heq
    have heq : w.taken ++ [a.names] = w.taken ++ [b.names] := heq
    exact hne (by simpa using heq)
  · simp

theorem taken_of_mem_extend {base : Option Node} {segment : Bytes} {w w' : Way}
    (h : w' ∈ extend base segment w) : w'.taken.dropLast = w.taken := by
  rw [extend] at h
  split at h
  · obtain ⟨d, -, rfl⟩ := List.mem_map.1 h
    simp [Way.concat]
  · cases h

/-- Each way is found once. -/
theorem nodup_ways {base : Option Node} (hbase : Opened base) (segments : List Bytes) :
    ((ways base segments).map Way.taken).Nodup := by
  induction segments using List.reverseRecOn with
  | nil =>
    cases base <;> simp [ways]
  | append_singleton segments segment ih =>
    rw [List.Nodup, List.pairwise_map] at ih
    rw [ways_concat, List.map_flatMap, List.Nodup, List.pairwise_flatMap]
    refine ⟨fun w _ => nodup_extend hbase segment w, ih.imp ?_⟩
    intro v w hne x hx y hy heq
    obtain ⟨v', hv', rfl⟩ := List.mem_map.1 hx
    obtain ⟨w', hw', rfl⟩ := List.mem_map.1 hy
    exact hne (by rw [← taken_of_mem_extend hv', ← taken_of_mem_extend hw', heq])

end BuildScript.Glob
