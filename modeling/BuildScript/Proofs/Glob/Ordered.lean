import BuildScript.Glob.MatchSet
import BuildScript.Proofs.Glob.Budget

/-!
# The last pattern decides

A list of patterns is a sequence of insertions and removals, one for every path that a walk finds.
What is left of it in the end depends on a path through the last pattern alone that finds it.

* `MatchSet.mem_applyPaths`: what the paths of one walk do to a set;
* `Decides`: a pattern is the last one that finds a path;
* `glob_last_decides`: the paths that a list of patterns leaves.
-/

namespace BuildScript.Glob

open BuildScript.Path Files

/-! ## Sets -/

namespace MatchSet

theorem mem_insert {s : MatchSet} {x path : Bytes} :
    x ∈ (s.insert path).paths ↔ x = path ∨ x ∈ s.paths :=
  mem_insertSorted

theorem mem_remove {s : MatchSet} {x path : Bytes} :
    x ∈ (s.remove path).paths ↔ x ≠ path ∧ x ∈ s.paths := by
  rw [remove, List.mem_filter, and_comm]
  simp

/-- What was found is in the set or out of it, and all else stays as it was. -/
theorem mem_applyPaths {s : MatchSet} {exclude : Bool} {found : List Bytes} {x : Bytes} :
    x ∈ (s.applyPaths exclude found).paths ↔
      if x ∈ found then exclude = false else x ∈ s.paths := by
  induction found generalizing s with
  | nil => simp [applyPaths]
  | cons path found ih =>
    have hstep : s.applyPaths exclude (path :: found) =
        (if exclude then s.remove path else s.insert path).applyPaths exclude found := rfl
    rw [hstep, ih]
    by_cases hx : x ∈ found
    · simp [hx]
    · by_cases hpath : x = path
      · subst hpath
        cases exclude <;> simp [hx, mem_insert, mem_remove]
      · cases exclude <;> simp [hx, hpath, mem_insert, mem_remove]

end MatchSet

/-! ## Patterns -/

section Patterns

variable {list : Listing} {style : Style}

/-- A pattern finds a path, once its sign is taken off. -/
def Finds (list : Listing) (style : Style) (pattern path : Bytes) : Prop :=
  ∃ budget found, collect list style budget (Signed.read pattern).pattern = some found ∧
    path ∈ found

/-- A pattern of the list finds a path and none behind it does. -/
def Decides (list : Listing) (style : Style) (patterns : List Bytes) (path last : Bytes) : Prop :=
  ∃ before after, patterns = before ++ last :: after ∧ Finds list style last path ∧
    ∀ later ∈ after, ¬ Finds list style later path

variable {patterns : List Bytes} {pattern path last : Bytes}

/-- A pattern at the end that finds the path is the last one. -/
theorem decides_concat_of_finds (h : Finds list style pattern path) :
    Decides list style (patterns ++ [pattern]) path last ↔ last = pattern := by
  constructor
  · rintro ⟨before, after, hsplit, -, hafter⟩
    cases after using List.reverseRecOn with
    | nil =>
      obtain ⟨-, heq⟩ := List.append_inj' hsplit rfl
      exact (List.cons.inj heq).1.symm
    | append_singleton after later =>
      rw [← List.cons_append, ← List.append_assoc] at hsplit
      obtain ⟨-, heq⟩ := List.append_inj' hsplit rfl
      obtain rfl := (List.cons.inj heq).1
      exact absurd h (hafter _ (by simp))
  · rintro rfl
    exact ⟨patterns, [], rfl, h, by simp⟩

/-- One that does not find it changes nothing. -/
theorem decides_concat_of_not_finds (h : ¬ Finds list style pattern path) :
    Decides list style (patterns ++ [pattern]) path last ↔
      Decides list style patterns path last := by
  constructor
  · rintro ⟨before, after, hsplit, hlast, hafter⟩
    cases after using List.reverseRecOn with
    | nil =>
      obtain ⟨-, heq⟩ := List.append_inj' hsplit rfl
      obtain rfl := (List.cons.inj heq).1
      exact absurd hlast h
    | append_singleton after later =>
      rw [← List.cons_append, ← List.append_assoc] at hsplit
      obtain ⟨heq, -⟩ := List.append_inj' hsplit rfl
      exact ⟨before, after, heq, hlast, fun q hq => hafter q (by simp [hq])⟩
  · rintro ⟨before, after, rfl, hlast, hafter⟩
    refine ⟨before, after ++ [pattern], by simp, hlast, ?_⟩
    intro later hlater
    rcases List.mem_append.1 hlater with hlater | hlater
    · exact hafter later hlater
    · obtain rfl := List.mem_singleton.1 hlater
      exact h

/-- What a pattern whose walk ends does to every set. -/
theorem exists_apply {pattern : Bytes} (hends : Ends list style (Signed.read pattern).pattern) :
    ∃ enough found dirs,
      (∀ path, path ∈ found ↔ Finds list style pattern path) ∧
      ∀ budget, enough ≤ budget → ∀ s : MatchSet, s.apply list style budget pattern =
        some (s.applyPaths (Signed.read pattern).exclude found, dirs) := by
  obtain ⟨enough, hsome⟩ := hends
  obtain ⟨events, hwalk⟩ := Option.isSome_iff_exists.1 hsome
  refine ⟨enough, foundPaths events, listedDirs events, ?_, ?_⟩
  · intro path
    constructor
    · intro hpath
      exact ⟨enough, foundPaths events, by rw [collect, hwalk]; rfl, hpath⟩
    · rintro ⟨budget, found, hcollect, hpath⟩
      obtain ⟨others, hothers, rfl⟩ := Option.map_eq_some_iff.1 hcollect
      -- both walks are the one with the larger budget
      have hleft := walk_mono (Nat.le_max_left enough budget) hwalk
      have hright := walk_mono (Nat.le_max_right enough budget) hothers
      rw [hleft] at hright
      obtain rfl := Option.some.inj hright
      exact hpath
  · intro budget hbudget s
    rw [MatchSet.apply, walk_mono hbudget hwalk, Option.map_some,
      MatchSet.applyEvents_eq_applyPaths]

theorem Signed.read_plain {pattern : Bytes} (h : pattern.head? ≠ some bang) :
    Signed.read pattern = ⟨false, pattern⟩ := by
  cases pattern with
  | nil => rfl
  | cons b rest =>
    have hb : b ≠ bang := fun heq => h (congrArg some heq)
    rw [Signed.read, if_neg (by simpa using hb)]

/-- A pattern without a sign leaves the paths that it finds. -/
theorem glob_singleton {list : Listing} {style : Style} {budget : Nat} {pattern : Bytes}
    {found : List Bytes} (hsign : Signed.read pattern = ⟨false, pattern⟩)
    (h : collect list style budget pattern = some found) :
    ∃ set : MatchSet, glob list style budget [pattern] = some set.paths ∧
      ∀ path, path ∈ set.paths ↔ path ∈ found := by
  obtain ⟨events, hwalk, rfl⟩ := Option.map_eq_some_iff.1 h
  refine ⟨MatchSet.empty.applyPaths false (foundPaths events), ?_, fun path => ?_⟩
  · rw [glob, List.foldlM_cons, MatchSet.apply, hsign]
    dsimp only
    rw [hwalk, Option.map_some, MatchSet.applyEvents_eq_applyPaths]
    rfl
  · rw [MatchSet.mem_applyPaths]
    simp [MatchSet.empty]

/-- All patterns of a list, one after the other. -/
theorem exists_foldlM {patterns : List Bytes}
    (hends : ∀ pattern ∈ patterns, Ends list style (Signed.read pattern).pattern) :
    ∃ enough, ∃ s : MatchSet,
      (∀ budget, enough ≤ budget → patterns.foldlM (fun (s : MatchSet) pattern =>
        (s.apply list style budget pattern).map Prod.fst) MatchSet.empty = some s) ∧
      ∀ path, path ∈ s.paths ↔
        ∃ last, Decides list style patterns path last ∧ (Signed.read last).exclude = false := by
  induction patterns using List.reverseRecOn with
  | nil =>
    refine ⟨0, MatchSet.empty, fun budget _ => rfl, fun path => ?_⟩
    simp [MatchSet.empty, Decides]
  | append_singleton patterns pattern ih =>
    obtain ⟨before, s, hfold, hmem⟩ := ih fun q hq => hends q (List.mem_append_left _ hq)
    obtain ⟨enough, found, dirs, hfound, happly⟩ := exists_apply (hends pattern (by simp))
    refine ⟨max before enough, s.applyPaths (Signed.read pattern).exclude found, ?_, ?_⟩
    · intro budget hbudget
      rw [List.foldlM_append, hfold budget (by omega)]
      simp only [Option.bind_eq_bind, Option.bind_some, List.foldlM_cons, List.foldlM_nil]
      rw [happly budget (by omega)]
      rfl
    · intro path
      rw [MatchSet.mem_applyPaths]
      by_cases hfinds : Finds list style pattern path
      · rw [if_pos ((hfound path).2 hfinds)]
        simp only [decides_concat_of_finds hfinds, exists_eq_left]
      · rw [if_neg fun hmem => hfinds ((hfound path).1 hmem)]
        simp only [decides_concat_of_not_finds hfinds]
        exact hmem path

end Patterns

/-- The paths that a list of patterns leaves, if their walks end: they are in strict byte order,
and a path is among them exactly if some pattern finds it and the last that does has no sign. On
one style the walks end on every finite tree. -/
theorem glob_last_decides :
    (∀ (list : Listing) (style : Style) (patterns : List Bytes),
      (∀ pattern ∈ patterns, Ends list style (Signed.read pattern).pattern) →
      ∃ enough paths,
        (∀ budget, enough ≤ budget → glob list style budget patterns = some paths) ∧
        paths.Pairwise (· < ·) ∧
        ∀ path, path ∈ paths ↔ ∃ last, Decides list style patterns path last ∧
          last.head? ≠ some bang) ∧
    (∀ (fs : FileSystem) (pattern : Bytes), fs.root.Proper → Ends fs.list .posix pattern) := by
  constructor
  · intro list style patterns hends
    have hsign : ∀ pattern : Bytes,
        (Signed.read pattern).exclude = false ↔ pattern.head? ≠ some bang := by
      intro pattern
      cases pattern with
      | nil => simp [Signed.read]
      | cons b rest => by_cases hb : b = bang <;> simp [Signed.read, hb]
    obtain ⟨enough, s, hfold, hmem⟩ := exists_foldlM hends
    refine ⟨enough, s.paths, ?_, s.sorted, ?_⟩
    · intro budget hbudget
      rw [glob, hfold budget hbudget]
      rfl
    · intro path
      simp only [hmem, hsign]
  · intro fs pattern hroot
    exact ⟨fs.root.height, walk_ends hroot pattern⟩

/-! ## Patterns without wildcards -/

/-- A pattern without wildcards is found as it is written. -/
theorem collect_literal {list : Listing} {style : Style} {pattern : Bytes}
    (hhead : isGlob (style.split pattern).head = false)
    (htail : isGlob (style.split pattern).tail = false)
    (hname : (style.split pattern).tail.isEmpty = false) (budget : Nat) :
    collect list style budget pattern = some [pattern] := by
  have hrec : isRecursive (style.split pattern).tail = false := by
    by_contra h
    have heq : (style.split pattern).tail = [star, star] := by simpa [isRecursive] using h
    rw [heq] at htail
    cases htail
  rw [collect, walk, dif_neg (by simp [hhead]), if_neg (by simp [hrec]), if_neg (by simp [htail]),
    if_neg (by simp [hname])]
  rfl

def emptyTree : FileSystem := ⟨.dir [], []⟩

theorem emptyTree_proper : emptyTree.root.Proper := Node.proper_dir (by simp) (by simp) (by simp)

/-- Of two files put in, one is taken out again. -/
def takenOut : List Bytes := ["b.c", "a.c", "!b.c", "a.c"].map Bytes.ofAscii

theorem finds_takenOut {name path : Bytes} (hname : name = Bytes.ofAscii "a.c" ∨
    name = Bytes.ofAscii "!b.c") :
    Finds emptyTree.list .posix name path ↔ path = (Signed.read name).pattern := by
  have hcollect : ∀ budget, collect emptyTree.list .posix budget (Signed.read name).pattern =
      some [(Signed.read name).pattern] := by
    intro budget
    rcases hname with rfl | rfl
    · exact collect_literal rfl rfl rfl budget
    · exact collect_literal rfl rfl rfl budget
  constructor
  · rintro ⟨budget, found, hfound, hpath⟩
    rw [hcollect] at hfound
    obtain rfl := Option.some.inj hfound
    exact List.mem_singleton.1 hpath
  · rintro rfl
    exact ⟨0, _, hcollect 0, List.mem_singleton.2 rfl⟩

theorem glob_last_decides_takenOut :
    (∀ pattern ∈ takenOut, Ends emptyTree.list .posix (Signed.read pattern).pattern) ∧
    ∃ enough paths, (∀ budget, enough ≤ budget →
        glob emptyTree.list .posix budget takenOut = some paths) ∧
      Bytes.ofAscii "a.c" ∈ paths ∧ Bytes.ofAscii "b.c" ∉ paths := by
  have hends : ∀ pattern ∈ takenOut, Ends emptyTree.list .posix (Signed.read pattern).pattern :=
    fun pattern _ => glob_last_decides.2 emptyTree _ emptyTree_proper
  obtain ⟨enough, paths, hglob, -, hmem⟩ := glob_last_decides.1 _ _ _ hends
  have hsplit : takenOut = ([Bytes.ofAscii "b.c", Bytes.ofAscii "a.c"] ++ [Bytes.ofAscii "!b.c"]) ++
      [Bytes.ofAscii "a.c"] := rfl
  refine ⟨hends, enough, paths, hglob, ?_, ?_⟩
  · have hfinds := (finds_takenOut (.inl rfl)).2 (rfl : Bytes.ofAscii "a.c" = _)
    refine (hmem _).2 ⟨Bytes.ofAscii "a.c", ?_, by decide⟩
    rw [hsplit]
    exact (decides_concat_of_finds hfinds).2 rfl
  · intro hpath
    obtain ⟨last, hlast, hsign⟩ := (hmem _).1 hpath
    have hnot : ¬ Finds emptyTree.list .posix (Bytes.ofAscii "a.c") (Bytes.ofAscii "b.c") := by
      rw [finds_takenOut (.inl rfl)]
      decide
    have hfinds : Finds emptyTree.list .posix (Bytes.ofAscii "!b.c") (Bytes.ofAscii "b.c") :=
      (finds_takenOut (.inr rfl)).2 rfl
    rw [hsplit, decides_concat_of_not_finds hnot, decides_concat_of_finds hfinds] at hlast
    subst hlast
    exact hsign rfl

end BuildScript.Glob
