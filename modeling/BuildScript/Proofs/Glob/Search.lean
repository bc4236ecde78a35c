import BuildScript.Glob.Walk

/-!
# What a walk asks for

A walk learns of directories only by asking for their entries, one directory after the other, and
whatever is found on the way is dealt with before the walk goes on. A search is the tree of all
that can come of it: it finds a path, or it asks for a directory and goes on with the answer.

* `Search`, `Search.run`, `Search.asked`: searches, what is observed on them, and the directories
  that they ask for;
* `Search.ofPattern`: the search for a pattern;
* `run_ofPattern`: what is observed on it is what is observed on the walk;
* `listedDirs_eq_asked`: the directories listed on a walk are those asked for that can be listed,
  in the order in which they are asked for.
-/

namespace BuildScript.Glob

open BuildScript.Path

/-- All that can come of a search. The answer to a question is the entries of the directory, in any
order, if it can be listed. -/
inductive Search (α : Type) where
  | done (a : α)
  /-- The search would go deeper than it may. -/
  | lost
  | found (path : Bytes) (isDir : Bool) (next : Search α)
  | ask (dir : Bytes) (next : Option (List Entry) → Search α)

namespace Search

variable {α β : Type}

def bind : Search α → (α → Search β) → Search β
  | done a, f => f a
  | lost, _ => lost
  | found path isDir next, f => found path isDir (next.bind f)
  | ask dir next, f => ask dir fun answer => (next answer).bind f

/-- A search that goes on with another one wherever it finds something. -/
def visit (f : Bytes → Bool → Search Unit) : Search α → Search α
  | done a => done a
  | lost => lost
  | found path isDir next => (f path isDir).bind fun _ => next.visit f
  | ask dir next => ask dir fun answer => (next answer).visit f

/-- What is observed of an answer. -/
def observed (list : Listing) (dir : Bytes) : List Event :=
  if (list dir).isSome then [.listed dir] else []

/-- Events ahead of what is observed later. -/
def after (events : List Event) (r : Option (List Event × α)) : Option (List Event × α) :=
  r.map fun r => (events ++ r.1, r.2)

/-- What is observed on a search with these directories, and its result. -/
def run (list : Listing) : Search α → Option (List Event × α)
  | done a => some ([], a)
  | lost => none
  | found path isDir next => after [.found path isDir] (next.run list)
  | ask dir next => after (observed list dir) ((next (list dir)).run list)

/-- The directories that a search asks for. -/
def asked (list : Listing) : Search α → List Bytes
  | done _ => []
  | lost => []
  | found _ _ next => next.asked list
  | ask dir next => dir :: (next (list dir)).asked list

/-! ## Runs -/

variable {list : Listing}

theorem after_eq_some_iff {events later : List Event} {r : Option (List Event × α)} {a : α} :
    after events r = some (later, a) ↔ ∃ rest, r = some (rest, a) ∧ later = events ++ rest := by
  rcases r with _ | ⟨rest, b⟩
  · simp [after]
  · constructor
    · intro h
      obtain ⟨rfl, rfl⟩ := Prod.mk.inj (Option.some.inj h)
      exact ⟨rest, rfl, rfl⟩
    · rintro ⟨_, h, rfl⟩
      obtain ⟨rfl, rfl⟩ := Prod.mk.inj (Option.some.inj h)
      rfl

theorem after_after (first second : List Event) (r : Option (List Event × α)) :
    after first (after second r) = after (first ++ second) r := by
  cases r <;> simp [after]

theorem run_bind (x : Search α) (f : α → Search β) :
    (x.bind f).run list = (x.run list).bind fun r => after r.1 ((f r.2).run list) := by
  induction x with
  | done a =>
    have same : after [] ((f a).run list) = (f a).run list := by
      cases (f a).run list <;> simp [after]
    exact same.symm
  | lost => rfl
  | found path isDir next ih =>
    simp only [bind, run, ih]
    cases next.run list with
    | none => rfl
    | some r => exact after_after _ _ _
  | ask dir next ih =>
    simp only [bind, run, ih]
    cases (next (list dir)).run list with
    | none => rfl
    | some r => exact after_after _ _ _

/-- What becomes of an event when another search is made wherever something is found. -/
def visited (list : Listing) (f : Bytes → Bool → Search Unit) : Event → Option (List Event)
  | .listed dir => some [.listed dir]
  | .found path isDir => ((f path isDir).run list).map Prod.fst

theorem mapM_visited_observed (f : Bytes → Bool → Search Unit) (dir : Bytes) :
    (observed list dir).mapM (visited list f) = some ((observed list dir).map ([·])) := by
  unfold observed
  split <;> rfl

theorem run_visit (f : Bytes → Bool → Search Unit) (x : Search α) :
    (x.visit f).run list =
      (x.run list).bind fun r => (r.1.mapM (visited list f)).map fun es => (es.flatten, r.2) := by
  induction x with
  | done a => rfl
  | lost => rfl
  | found path isDir next ih =>
    simp only [visit, run, run_bind, ih]
    cases here : (f path isDir).run list with
    | none => cases next.run list <;> simp [after, visited, here]
    | some r =>
      cases next.run list with
      | none => rfl
      | some q =>
        cases later : q.1.mapM (visited list f) <;> simp [after, visited, here, later]
  | ask dir next ih =>
    simp only [visit, run, ih]
    cases (next (list dir)).run list with
    | none => rfl
    | some r =>
      -- what is observed of the answer is handed on as it is
      have split : (observed list dir ++ r.1).mapM (visited list f) =
          (r.1.mapM (visited list f)).map fun es => (observed list dir).map ([·]) ++ es := by
        rw [List.mapM_append, mapM_visited_observed]
        cases r.1.mapM (visited list f) <;> rfl
      have flat : ((observed list dir).map ([·])).flatten = observed list dir := by
        unfold observed
        split <;> rfl
      simp only [after, Option.map_some, Option.bind_some, split, Option.map_map, Function.comp_def,
        List.flatten_append, flat]

/-- The directories listed are those asked for that can be listed. -/
theorem listedDirs_run {x : Search α} {events : List Event} {a : α}
    (h : x.run list = some (events, a)) :
    listedDirs events = (x.asked list).filter fun dir => (list dir).isSome := by
  induction x generalizing events with
  | done b =>
    obtain ⟨rfl, -⟩ := Prod.mk.inj (Option.some.inj h)
    rfl
  | lost => cases h
  | found path isDir next ih =>
    obtain ⟨rest, hrest, rfl⟩ := after_eq_some_iff.1 h
    have later : listedDirs rest = _ := ih hrest
    exact later
  | ask dir next ih =>
    obtain ⟨rest, hrest, rfl⟩ := after_eq_some_iff.1 h
    have := ih (list dir) hrest
    unfold listedDirs at this ⊢
    rw [List.filterMap_append, this, asked, List.filter_cons]
    unfold observed
    split <;> rfl

/-! ## Walks -/

/-- Asks for the entries of a directory by name. -/
def openDir (dir : Bytes) (next : Option (List Entry) → Search α) : Search α :=
  ask (listingPath dir) fun answer => next (answer.map byName)

def matching (style : Style) (pattern : Bytes) (len : Nat) : Bytes → List Entry → Search Unit
  | _, [] => done ()
  | buffer, e :: rest =>
    if matchesPattern style e.name pattern then
      let path := style.join buffer e.name
      found path e.isDir (matching style pattern len (path.take len) rest)
    else matching style pattern len buffer rest

/-- The entries of `dir` that match `pattern`, or with an empty pattern `dir` itself. -/
def inDir (style : Style) (dir pattern : Bytes) : Search Unit :=
  if pattern.isEmpty then found (style.join dir []) true (done ())
  else
    openDir dir fun
      | none => done ()
      | some entries => matching style pattern dir.length dir entries

/-- An entry and what is below it. -/
def entry (style : Style) (below : Bytes → List Entry → Search Bytes) (buffer : Bytes)
    (e : Entry) : Search Bytes :=
  let path := style.join buffer e.name
  found path e.isDir <|
    if e.isDir then
      openDir path fun
        | none => done path
        | some children => below path children
    else done path

def entries (style : Style) (below : Bytes → List Entry → Search Bytes) (len : Nat) :
    Bytes → List Entry → Search Bytes
  | buffer, [] => done buffer
  | buffer, e :: rest =>
    (entry style below buffer e).bind fun after => entries style below len (after.take len) rest

def descend (style : Style) : (budget : Nat) → Bytes → List Entry → Search Bytes
  | 0, _, _ => lost
  | budget + 1, buffer, es => entries style (descend style budget) buffer.length buffer es

/-- A directory and all that is below it. -/
def under (style : Style) (budget : Nat) (dir : Bytes) : Search Unit :=
  openDir dir fun
    | none => done ()
    | some es => found dir true ((descend style budget dir es).bind fun _ => done ())

/-- The last segment of a pattern, wherever its directory part finds something. -/
def follow (style : Style) (budget : Nat) (tail path : Bytes) (isDir : Bool) : Search Unit :=
  if isDir then if isRecursive tail then under style budget path else inDir style path tail
  else done ()

def ofPattern (style : Style) (budget : Nat) (pattern : Bytes) : Search Unit :=
  let parts := style.split pattern
  if hasGlob : isGlob parts.head then
    have : parts.head.length < pattern.length := split_head_lt hasGlob
    (ofPattern style budget parts.head).visit (follow style budget parts.tail)
  else if isRecursive parts.tail then under style budget parts.head
  else if isGlob parts.tail then inDir style parts.head parts.tail
  else if parts.tail.isEmpty then found parts.head true (done ())
  else found pattern false (done ())
termination_by pattern.length

/-! ## Searches are walks -/

theorem run_openDir (dir : Bytes) (next : Option (List Entry) → Search α) :
    (openDir dir next).run list =
      match open? list dir with
      | none => (next none).run list
      | some es => after [.listed (listingPath dir)] ((next (some es)).run list) := by
  unfold openDir open?
  rw [run, observed]
  cases list (listingPath dir) with
  | none => simp [after]
  | some es => rfl

theorem run_matching (style : Style) (pattern : Bytes) (len : Nat) (buffer : Bytes)
    (es : List Entry) :
    (matching style pattern len buffer es).run list =
      some (Glob.matching style pattern len buffer es, ()) := by
  induction es generalizing buffer with
  | nil => rfl
  | cons e rest ih =>
    unfold matching Glob.matching
    split
    · simp only [run, ih]
      rfl
    · exact ih buffer

theorem run_inDir (style : Style) (dir pattern : Bytes) :
    (inDir style dir pattern).run list = some (walkDir list style dir pattern, ()) := by
  unfold inDir walkDir
  split
  · rfl
  · rw [run_openDir]
    cases open? list dir with
    | none => rfl
    | some es =>
      dsimp only
      rw [run_matching]
      rfl

section
variable {style : Style} {below : Bytes → List Entry → Search Bytes}
variable {walkBelow : Bytes → List Entry → Option (List Event × Bytes)}
variable (agree : ∀ path es, (below path es).run list = walkBelow path es)
include agree

theorem run_entry (buffer : Bytes) (e : Entry) :
    (entry style below buffer e).run list = visitEntry list style walkBelow buffer e := by
  unfold entry visitEntry
  cases e.isDir with
  | false => rfl
  | true =>
    simp only [if_true, run, run_openDir]
    cases open? list (style.join buffer e.name) with
    | none => rfl
    | some children =>
      dsimp only
      rw [agree, after_after]
      rfl

theorem run_entries (len : Nat) (buffer : Bytes) (es : List Entry) :
    (entries style below len buffer es).run list =
      visitEntries list style walkBelow len buffer es := by
  induction es generalizing buffer with
  | nil => rfl
  | cons e rest ih =>
    rw [entries, visitEntries, run_bind, run_entry agree]
    simp only [ih]
    rfl

end

theorem run_descend (style : Style) (budget : Nat) (buffer : Bytes) (es : List Entry) :
    (descend style budget buffer es).run list = Glob.descend list style budget buffer es := by
  induction budget generalizing buffer es with
  | zero => rfl
  | succ budget ih => exact run_entries ih ..

theorem run_under (style : Style) (budget : Nat) (dir : Bytes) :
    (under style budget dir).run list =
      (walkBelow list style budget dir).map fun events => (events, ()) := by
  unfold under walkBelow
  rw [run_openDir]
  cases open? list dir with
  | none => rfl
  | some es =>
    simp only [run, run_bind, run_descend]
    cases Glob.descend list style budget dir es <;> simp [after]

theorem run_follow (style : Style) (budget : Nat) (tail path : Bytes) (isDir : Bool) :
    (follow style budget tail path isDir).run list =
      (Glob.follow list style budget tail (.found path isDir)).map fun events => (events, ()) := by
  cases isDir with
  | false => rfl
  | true =>
    simp only [follow, Glob.follow, if_true]
    split
    · exact run_under ..
    · exact run_inDir ..

/-- What is observed on the search for a pattern is what is observed on its walk. -/
theorem run_ofPattern (list : Listing) (style : Style) (budget : Nat) (pattern : Bytes) :
    (ofPattern style budget pattern).run list =
      (walk list style budget pattern).map fun events => (events, ()) := by
  induction hlen : pattern.length using Nat.strongRecOn generalizing pattern with
  | ind n ih =>
    unfold ofPattern walk
    by_cases hasGlob : isGlob (style.split pattern).head
    -- the walk follows the events of the head one by one, the search does so as they come up
    · have shorter := split_head_lt hasGlob
      have head := ih _ (hlen ▸ shorter) _ rfl
      have same : visited list (follow style budget (style.split pattern).tail) =
          Glob.follow list style budget (style.split pattern).tail := by
        funext e
        cases e with
        | listed dir => rfl
        | found path isDir =>
          rw [visited, run_follow]
          cases Glob.follow list style budget (style.split pattern).tail (.found path isDir) <;>
            rfl
      simp only [dif_pos hasGlob]
      rw [run_visit, head, same]
      cases walk list style budget (style.split pattern).head with
      | none => rfl
      | some events => simp [Option.map_map, Function.comp_def]
    · simp only [dif_neg hasGlob]
      split
      · exact run_under ..
      · split
        · exact run_inDir ..
        · split <;> rfl

end Search

/-- The directories that the walk of a pattern asks for, in order. -/
def askedDirs (list : Listing) (style : Style) (budget : Nat) (pattern : Bytes) : List Bytes :=
  (Search.ofPattern style budget pattern).asked list

/-- A directory is told of exactly where it was asked for and could be listed. -/
theorem listedDirs_eq_asked {list : Listing} {style : Style} {budget : Nat} {pattern : Bytes}
    {events : List Event} (h : walk list style budget pattern = some events) :
    listedDirs events =
      (askedDirs list style budget pattern).filter fun dir => (list dir).isSome := by
  have hrun := Search.run_ofPattern list style budget pattern
  rw [h] at hrun
  exact Search.listedDirs_run hrun

end BuildScript.Glob
