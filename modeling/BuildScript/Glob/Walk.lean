import BuildScript.Glob.Pattern

/-!
# Walking directories

A pattern for a path is resolved from its directory part down to its last segment, against
whatever tells the entries of a directory. What a walk observes is a list of events: paths
found and directories listed, in the order in which they happen.

* a directory part with a wildcard is resolved first, and the last segment is then resolved
  in every directory found;
* `**` finds a directory and all that is below it, each directory before its contents;
* a segment with another wildcard finds the entries that match it;
* anything else is found as it is written, without a look at the directory.

A directory that cannot be listed has nothing in it. Links are found, but never entered on
the way down. A walk that goes deeper than its budget has no result.
-/

namespace BuildScript.Glob

open BuildScript.Path

/-- An entry of a directory. A link is not a directory, whatever it leads to. -/
structure Entry where
  name : Bytes
  isDir : Bool
  deriving DecidableEq, Repr

/-- What there is to know about directories: the entries of those that can be listed. -/
abbrev Listing := Bytes → Option (List Entry)

/-- Something observed on a walk. -/
inductive Event where
  | found (path : Bytes) (isDir : Bool)
  | listed (dir : Bytes)
  deriving DecidableEq, Repr

/-! ## One directory -/

/-- The name under which a directory is listed: the empty path is the current directory. -/
def listingPath (dir : Bytes) : Bytes := if dir.isEmpty then [Style.dot] else dir

/-- Entries in the order of their names. -/
def byName (entries : List Entry) : List Entry :=
  entries.mergeSort fun a b => !decide (b.name < a.name)

/-- The entries of a directory by name, if it can be listed. -/
def open? (list : Listing) (dir : Bytes) : Option (List Entry) :=
  (list (listingPath dir)).map byName

/-- The matching ones among the entries of a directory. Every path is made in the same
buffer, which is cut back to the length of the directory after each. -/
def matching (style : Style) (pattern : Bytes) (len : Nat) : Bytes → List Entry → List Event
  | _, [] => []
  | buffer, e :: rest =>
    if matchesPattern style e.name pattern then
      let path := style.join buffer e.name
      .found path e.isDir :: matching style pattern len (path.take len) rest
    else matching style pattern len buffer rest

/-- The entries of `dir` that match `pattern`, or with an empty pattern `dir` itself. -/
def walkDir (list : Listing) (style : Style) (dir pattern : Bytes) : List Event :=
  if pattern.isEmpty then [.found (style.join dir []) true]
  else
    match open? list dir with
    | none => []
    | some entries =>
      .listed (listingPath dir) :: matching style pattern dir.length dir entries

/-! ## All that is below a directory -/

/-- An entry and what is below it, and what is in the buffer then. `below` goes down into a
directory. -/
def visitEntry (list : Listing) (style : Style)
    (below : Bytes → List Entry → Option (List Event × Bytes)) (buffer : Bytes) (e : Entry) :
    Option (List Event × Bytes) :=
  let path := style.join buffer e.name
  if e.isDir then
    match open? list path with
    | none => some ([.found path true], path)
    | some children =>
      (below path children).map fun r =>
        (.found path true :: .listed (listingPath path) :: r.1, r.2)
  else some ([.found path false], path)

/-- The entries of one directory, one behind the other, with the buffer cut back to the
length of the directory after each. -/
def visitEntries (list : Listing) (style : Style)
    (below : Bytes → List Entry → Option (List Event × Bytes)) (len : Nat) :
    Bytes → List Entry → Option (List Event × Bytes)
  | buffer, [] => some ([], buffer)
  | buffer, e :: rest =>
    (visitEntry list style below buffer e).bind fun r =>
      (visitEntries list style below len (r.2.take len) rest).map fun q => (r.1 ++ q.1, q.2)

/-- The given entries of the directory in the buffer and what is below them, at most `budget`
levels deep, and what is in the buffer at the end. -/
def descend (list : Listing) (style : Style) :
    (budget : Nat) → Bytes → List Entry → Option (List Event × Bytes)
  | 0, _, _ => none
  | budget + 1, buffer, entries =>
    visitEntries list style (descend list style budget) buffer.length buffer entries

/-- A directory and all that is below it. -/
def walkBelow (list : Listing) (style : Style) (budget : Nat) (dir : Bytes) :
    Option (List Event) :=
  match open? list dir with
  | none => some []
  | some entries =>
    (descend list style budget dir entries).map fun r =>
      .listed (listingPath dir) :: .found dir true :: r.1

/-! ## Whole patterns -/

theorem dropWhile_head {α : Type} {p : α → Bool} {l r : List α} {a : α}
    (h : l.dropWhile p = a :: r) : p a = false := by
  induction l with
  | nil => simp at h
  | cons b l ih =>
    rw [List.dropWhile_cons] at h
    split at h
    · exact ih h
    · obtain ⟨rfl, -⟩ : b = a ∧ l = r := by simpa using h
      simpa using ‹¬ p b = true›

theorem all_of_dropWhile_eq_nil {α : Type} {p : α → Bool} {l : List α}
    (h : l.dropWhile p = []) : ∀ a ∈ l, p a = true := by
  induction l with
  | nil => simp
  | cons b l ih =>
    rw [List.dropWhile_cons] at h
    split at h
    · intro a ha
      rcases List.mem_cons.1 ha with rfl | ha
      · assumption
      · exact ih h a ha
    · simp at h

theorem dropWhile_length_le {α : Type} (p : α → Bool) (l : List α) :
    (l.dropWhile p).length ≤ l.length :=
  (List.dropWhile_sublist p).length_le

theorem not_isWildcard_of_isSep {style : Style} {b : UInt8} (h : style.isSep b = true) :
    isWildcard b = false := by
  cases style
  · have : b = Style.slash := by simpa [Style.isSep] using h
    subst this; rfl
  · have : b = Style.slash ∨ b = Style.backslash := by simpa [Style.isSep] using h
    rcases this with rfl | rfl <;> rfl

/-- A directory part with a wildcard is shorter than the whole. -/
theorem split_head_lt {style : Style} {pattern : Bytes}
    (h : isGlob (style.split pattern).head = true) :
    (style.split pattern).head.length < pattern.length := by
  have hlead : (style.lead pattern).length ≤ pattern.length := by
    simpa [Style.lead] using dropWhile_length_le (fun b => !style.isSep b) pattern.reverse
  cases hl : pattern.reverse.dropWhile (fun b => !style.isSep b) with
  | nil =>
    have : style.lead pattern = [] := by simp [Style.lead, hl]
    simp [Style.split, this, Style.trimEnd, isGlob] at h
  | cons b r =>
    have hb : style.isSep b = true := by simpa using dropWhile_head hl
    have hlr : (style.lead pattern).reverse = b :: r := by simp [Style.lead, hl]
    have htrim : (style.trimEnd (style.lead pattern)).length < (style.lead pattern).length := by
      have h1 := dropWhile_length_le style.isSep r
      have h2 : (style.lead pattern).length = r.length + 1 := by
        simpa using congrArg List.length hlr
      have h3 : (style.trimEnd (style.lead pattern)).length = (r.dropWhile style.isSep).length := by
        simp [Style.trimEnd, hlr, hb]
      omega
    by_cases he : (style.trimEnd (style.lead pattern)).isEmpty
    · have hnil : (style.lead pattern).reverse.dropWhile style.isSep = [] := by
        simpa [Style.trimEnd] using he
      have hall : ∀ x ∈ style.lead pattern, style.isSep x = true := by
        intro x hx
        exact all_of_dropWhile_eq_nil hnil x (by simpa using hx)
      exfalso
      have hg : (style.lead pattern).any isWildcard = true := by
        simpa [Style.split, he, isGlob] using h
      obtain ⟨x, hx, hw⟩ := List.any_eq_true.1 hg
      rw [not_isWildcard_of_isSep (hall x hx)] at hw
      cases hw
    · have : (style.split pattern).head = style.trimEnd (style.lead pattern) := by
        simp [Style.split, he]
      rw [this]
      omega

/-- What the last segment makes of an event of the walk through the directory part. -/
def follow (list : Listing) (style : Style) (budget : Nat) (tail : Bytes) :
    Event → Option (List Event)
  | .listed dir => some [.listed dir]
  | .found _ false => some []
  | .found path true =>
    if isRecursive tail then walkBelow list style budget path
    else some (walkDir list style path tail)

/-- What is observed while a pattern is resolved, or nothing if the walk goes deeper than
`budget` levels below a directory. -/
def walk (list : Listing) (style : Style) (budget : Nat) (pattern : Bytes) :
    Option (List Event) :=
  let parts := style.split pattern
  if hasGlob : isGlob parts.head then
    have : parts.head.length < pattern.length := split_head_lt hasGlob
    (walk list style budget parts.head).bind fun events =>
      (events.mapM (follow list style budget parts.tail)).map List.flatten
  else if isRecursive parts.tail then walkBelow list style budget parts.head
  else if isGlob parts.tail then some (walkDir list style parts.head parts.tail)
  else if parts.tail.isEmpty then some [.found parts.head true]
  else some [.found pattern false]
termination_by pattern.length

/-! ## Views of the events -/

/-- The path that an event finds. -/
def Event.path? : Event → Option Bytes
  | found path _ => some path
  | listed _ => none

/-- The directory that an event lists. -/
def Event.dir? : Event → Option Bytes
  | found _ _ => none
  | listed dir => some dir

def foundPaths (events : List Event) : List Bytes := events.filterMap Event.path?

def listedDirs (events : List Event) : List Bytes := events.filterMap Event.dir?

/-- The paths that a pattern finds, in the order in which they are found. -/
def collect (list : Listing) (style : Style) (budget : Nat) (pattern : Bytes) :
    Option (List Bytes) :=
  (walk list style budget pattern).map foundPaths

end BuildScript.Glob
