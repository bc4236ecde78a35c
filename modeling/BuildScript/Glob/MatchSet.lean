import BuildScript.Glob.Walk

/-!
# Sets of paths from lists of patterns

Patterns are applied in order. One that begins with `!` takes what the rest of it finds out
of the set, any other puts what it finds in. A set keeps its paths in byte order, without
duplicates, on every style of path.

* `MatchSet.insert`, `MatchSet.remove`, `MatchSet.contains`;
* `MatchSet.applyEvents`: what the events of one walk do to a set;
* `MatchSet.apply`: one pattern;
* `glob`: a list of patterns from the empty set.
-/

namespace BuildScript.Glob

open BuildScript.Path

/-! ## Sorted lists -/

/-- A path put into its place. -/
def insertSorted (x : Bytes) : List Bytes → List Bytes
  | [] => [x]
  | y :: ys => if x < y then x :: y :: ys else if x = y then y :: ys else y :: insertSorted x ys

theorem mem_insertSorted {x z : Bytes} {ys : List Bytes} :
    z ∈ insertSorted x ys ↔ z = x ∨ z ∈ ys := by
  induction ys with
  | nil => simp [insertSorted]
  | cons y ys ih =>
    unfold insertSorted
    split
    · simp
    · split
      · rename_i hxy
        subst hxy
        simp
      · simp only [List.mem_cons, ih]
        constructor
        · rintro (h | h | h) <;> simp [h]
        · rintro (h | h | h) <;> simp [h]

theorem pairwise_insertSorted {x : Bytes} {ys : List Bytes} (h : ys.Pairwise (· < ·)) :
    (insertSorted x ys).Pairwise (· < ·) := by
  induction ys with
  | nil => simp [insertSorted]
  | cons y ys ih =>
    obtain ⟨hy, hys⟩ := List.pairwise_cons.1 h
    unfold insertSorted
    split
    · rename_i hxy
      refine List.pairwise_cons.2 ⟨?_, h⟩
      intro z hz
      rcases List.mem_cons.1 hz with rfl | hz
      · exact hxy
      · exact List.lt_trans hxy (hy z hz)
    · split
      · exact h
      · rename_i hlt hne
        refine List.pairwise_cons.2 ⟨?_, ih hys⟩
        intro z hz
        rcases mem_insertSorted.1 hz with rfl | hz
        · by_cases hgt : y < z
          · exact hgt
          · exact absurd (List.le_antisymm (List.not_lt.1 hgt) (List.not_lt.1 hlt)) hne
        · exact hy z hz

/-! ## Sets -/

/-- A set of paths, in byte order. -/
structure MatchSet where
  paths : List Bytes
  sorted : paths.Pairwise (· < ·)

namespace MatchSet

def empty : MatchSet := ⟨[], List.Pairwise.nil⟩

def size (s : MatchSet) : Nat := s.paths.length

def isEmpty (s : MatchSet) : Bool := s.paths.isEmpty

def contains (s : MatchSet) (path : Bytes) : Bool := s.paths.contains path

def insert (s : MatchSet) (path : Bytes) : MatchSet :=
  ⟨insertSorted path s.paths, pairwise_insertSorted s.sorted⟩

def remove (s : MatchSet) (path : Bytes) : MatchSet :=
  ⟨s.paths.filter (· != path), s.sorted.filter _⟩

/-- What one event of a walk does to a set. -/
def applyEvent (exclude : Bool) (s : MatchSet) : Event → MatchSet
  | .found path _ => if exclude then s.remove path else s.insert path
  | .listed _ => s

def applyEvents (s : MatchSet) (exclude : Bool) (events : List Event) : MatchSet :=
  events.foldl (applyEvent exclude) s

/-- What the paths that a walk found do to a set. -/
def applyPaths (s : MatchSet) (exclude : Bool) (paths : List Bytes) : MatchSet :=
  paths.foldl (fun s path => if exclude then s.remove path else s.insert path) s

/-- Only the paths found matter. -/
theorem applyEvents_eq_applyPaths {s : MatchSet} {exclude : Bool} {events : List Event} :
    s.applyEvents exclude events = s.applyPaths exclude (foundPaths events) := by
  induction events generalizing s with
  | nil => rfl
  | cons e events ih => cases e <;> exact ih

end MatchSet

/-! ## Patterns with a sign -/

/-- A pattern and what its paths are to do. -/
structure Signed where
  exclude : Bool
  pattern : Bytes
  deriving DecidableEq, Repr

/-- One leading `!` is the sign of a pattern. -/
def Signed.read : Bytes → Signed
  | [] => ⟨false, []⟩
  | b :: rest => if b == bang then ⟨true, rest⟩ else ⟨false, b :: rest⟩

/-- A pattern behind a directory, with its sign in front of both. -/
def rebase (style : Style) (dir pattern : Bytes) : Bytes :=
  let signed := Signed.read pattern
  let joined := style.join dir signed.pattern
  if signed.exclude then bang :: joined else joined

/-- Applies one pattern to a set: the set after it and the directories listed on the way. -/
def MatchSet.apply (list : Listing) (style : Style) (budget : Nat) (s : MatchSet)
    (pattern : Bytes) : Option (MatchSet × List Bytes) :=
  let signed := Signed.read pattern
  (walk list style budget signed.pattern).map fun events =>
    (s.applyEvents signed.exclude events, listedDirs events)

/-- The paths that a list of patterns leaves, in byte order. -/
def glob (list : Listing) (style : Style) (budget : Nat) (patterns : List Bytes) :
    Option (List Bytes) :=
  let next (s : MatchSet) (pattern : Bytes) := (s.apply list style budget pattern).map Prod.fst
  (patterns.foldlM next MatchSet.empty).map MatchSet.paths

end BuildScript.Glob
