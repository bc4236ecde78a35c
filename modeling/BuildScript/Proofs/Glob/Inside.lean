import BuildScript.Proofs.Files.Inside
import BuildScript.Proofs.Glob.Budget
import BuildScript.Proofs.Glob.Search
import BuildScript.Proofs.Glob.Segments

/-!
# Searches in a directory

A pattern behind the path of a directory is searched for as it is in the directory, as long as no
byte of that path is a wildcard: every path that is found and every directory that is asked for is
the one from inside, seen from further out. So what is found is the same, whatever is known of the
other directories.

* `Search.Within`: two searches that do the same from both places;
* `Search.within_matching`, `Search.within_entries`, `Search.within_descend`, `Search.within_follow`:
  the parts of a search;
* `Search.within_ofPattern`: the search for a pattern;
* `Search.Within.run`: what such searches find;
* `collect_within`: the paths that a pattern finds from both places.
-/

namespace BuildScript.Glob

open BuildScript.Path Files

/-- Whether the names among the entries of a directory are some that a path can hold. -/
def ProperAnswer (answer : Option (List Entry)) : Prop :=
  ∀ es ∈ answer, ∀ e ∈ es, ProperName e.name

theorem properAnswer_list {fs : FileSystem} (hroot : fs.root.Proper) (path : Bytes) :
    ProperAnswer (fs.list path) := by
  intro es hes e he
  obtain ⟨loc, entries, hlookup⟩ := FileSystem.exists_of_list (Option.isSome_iff_exists.2 ⟨es, hes⟩)
  rw [FileSystem.list_of_lookup hlookup] at hes
  obtain rfl := Option.some.inj hes
  obtain ⟨entry, hentry, rfl⟩ := List.mem_map.1 he
  have hproper := hroot.at? (FileSystem.lookup_eq_ok_iff.1 hlookup).2.2
  exact hproper.names.2 entry hentry

theorem isGlob_within {dir path : Bytes} (hpath : Style.posix.isAbsolute path = false) :
    isGlob (Style.posix.within dir path) = (isGlob dir || isGlob path) := by
  rw [← any_isGlob_words .posix, Style.words_within hpath, List.any_append, any_isGlob_words,
    any_isGlob_words]

namespace Search

variable {α β γ δ : Type} {dir path : Bytes}

/-- Two searches that do the same, the first one in a directory and the second one from further
out, whatever answers they get. `R` is what their results have to do with each other. -/
inductive Within (dir : Bytes) (R : α → β → Prop) : Search α → Search β → Prop where
  | done {a : α} {b : β} (h : R a b) : Within dir R (.done a) (.done b)
  | lost : Within dir R .lost .lost
  | found {path : Bytes} {isDir : Bool} {next : Search α} {next' : Search β}
      (hpath : Style.posix.isAbsolute path = false) (hnext : Within dir R next next') :
      Within dir R (.found path isDir next) (.found (Style.posix.within dir path) isDir next')
  | ask {path : Bytes} {next : Option (List Entry) → Search α}
      {next' : Option (List Entry) → Search β} (hpath : Style.posix.isAbsolute path = false)
      (hnext : ∀ answer, ProperAnswer answer → Within dir R (next answer) (next' answer)) :
      Within dir R (.ask (listingPath path) next)
        (.ask (listingPath (Style.posix.within dir path)) next')

theorem Within.bind {R : α → β → Prop} {S : γ → δ → Prop} {x : Search α} {y : Search β}
    {f : α → Search γ} {g : β → Search δ} (h : Within dir R x y)
    (hnext : ∀ a b, R a b → Within dir S (f a) (g b)) : Within dir S (x.bind f) (y.bind g) := by
  induction h with
  | done hab => exact hnext _ _ hab
  | lost => exact .lost
  | found hpath _ ih => exact .found hpath ih
  | ask hpath _ ih => exact .ask hpath ih

theorem Within.visit {R : α → β → Prop} {x : Search α} {y : Search β}
    {f g : Bytes → Bool → Search Unit} (h : Within dir R x y)
    (hvisit : ∀ path isDir, Style.posix.isAbsolute path = false →
      Within dir Eq (f path isDir) (g (Style.posix.within dir path) isDir)) :
    Within dir R (x.visit f) (y.visit g) := by
  induction h with
  | done hab => exact .done hab
  | lost => exact .lost
  | found hpath _ ih => exact (hvisit _ _ hpath).bind fun _ _ _ => ih
  | ask hpath _ ih => exact .ask hpath ih

/-! ## Parts of a search -/

theorem within_openDir {R : α → β → Prop} {next : Option (List Entry) → Search α}
    {next' : Option (List Entry) → Search β} (hpath : Style.posix.isAbsolute path = false)
    (hnone : Within dir R (next none) (next' none))
    (hsome : ∀ es, (∀ e ∈ es, ProperName e.name) →
      Within dir R (next (some es)) (next' (some es))) :
    Within dir R (openDir path next) (openDir (Style.posix.within dir path) next') := by
  refine .ask hpath fun answer hanswer => ?_
  cases answer with
  | none => exact hnone
  | some es =>
    refine hsome _ fun e he => hanswer es rfl e ?_
    exact List.mem_mergeSort.1 he

theorem within_matching {es : List Entry} (hpath : Style.posix.isAbsolute path = false)
    (hes : ∀ e ∈ es, ProperName e.name) (pattern : Bytes) :
    Within dir Eq (matching .posix pattern path.length path es)
      (matching .posix pattern (Style.posix.within dir path).length
        (Style.posix.within dir path) es) := by
  induction es with
  | nil => exact .done rfl
  | cons e es ih =>
    have hname := hes e List.mem_cons_self
    have hrest := ih fun e he => hes e (List.mem_cons_of_mem _ he)
    unfold matching
    split
    · dsimp only
      rw [Style.take_join hname.not_isAbsolute, Style.take_join hname.not_isAbsolute,
        Style.join_within hpath hname.not_isAbsolute hname.1]
      exact .found (Style.isAbsolute_join hpath hname.not_isAbsolute) hrest
    · exact hrest

theorem within_inDir {pattern : Bytes} (hpath : Style.posix.isAbsolute path = false)
    (hne : pattern ≠ []) :
    Within dir Eq (inDir .posix path pattern)
      (inDir .posix (Style.posix.within dir path) pattern) := by
  unfold inDir
  rw [if_neg (by simpa using hne), if_neg (by simpa using hne)]
  exact within_openDir hpath (.done rfl) fun es hes => within_matching hpath hes pattern

/-- What is in the two buffers when a directory is done with: its path. -/
def Buffers (dir path : Bytes) (buffer buffer' : Bytes) : Prop :=
  buffer = path ∧ buffer' = Style.posix.within dir path

/-- Two ways down that do the same below every path. -/
def WithinBelow (dir : Bytes) (below below' : Bytes → List Entry → Search Bytes) : Prop :=
  ∀ path es, Style.posix.isAbsolute path = false → (∀ e ∈ es, ProperName e.name) →
    Within dir (Buffers dir path) (below path es) (below' (Style.posix.within dir path) es)

section Down

variable {below below' : Bytes → List Entry → Search Bytes} (hbelow : WithinBelow dir below below')
include hbelow

theorem within_entry {e : Entry} (hpath : Style.posix.isAbsolute path = false)
    (hname : ProperName e.name) :
    Within dir (Buffers dir (Style.posix.join path e.name)) (entry .posix below path e)
      (entry .posix below' (Style.posix.within dir path) e) := by
  unfold entry
  dsimp only
  have hjoin := Style.isAbsolute_join hpath hname.not_isAbsolute
  rw [Style.join_within hpath hname.not_isAbsolute hname.1]
  refine .found hjoin ?_
  split
  · exact within_openDir hjoin (.done ⟨rfl, rfl⟩) fun es hes => hbelow _ es hjoin hes
  · exact .done ⟨rfl, rfl⟩

theorem within_entries {es : List Entry} (hpath : Style.posix.isAbsolute path = false)
    (hes : ∀ e ∈ es, ProperName e.name) :
    Within dir (Buffers dir path) (entries .posix below path.length path es)
      (entries .posix below' (Style.posix.within dir path).length
        (Style.posix.within dir path) es) := by
  induction es with
  | nil => exact .done ⟨rfl, rfl⟩
  | cons e es ih =>
    have hname := hes e List.mem_cons_self
    have hrest := ih fun e he => hes e (List.mem_cons_of_mem _ he)
    refine (within_entry hbelow hpath hname).bind ?_
    rintro _ _ ⟨rfl, rfl⟩
    rw [← Style.join_within hpath hname.not_isAbsolute hname.1,
      Style.take_join hname.not_isAbsolute, Style.take_join hname.not_isAbsolute]
    exact hrest

end Down

theorem within_descend (dir : Bytes) (budget : Nat) :
    WithinBelow dir (descend .posix budget) (descend .posix budget) := by
  induction budget with
  | zero => exact fun _ _ _ _ => .lost
  | succ budget ih => exact fun path es hpath hes => within_entries ih hpath hes

theorem within_under (hpath : Style.posix.isAbsolute path = false) (budget : Nat) :
    Within dir Eq (under .posix budget path)
      (under .posix budget (Style.posix.within dir path)) := by
  refine within_openDir hpath (.done rfl) fun es hes => .found hpath ?_
  exact (within_descend dir budget path es hpath hes).bind fun _ _ _ => .done rfl

theorem within_follow {tail : Bytes} (hpath : Style.posix.isAbsolute path = false)
    (hne : tail ≠ []) (budget : Nat) (isDir : Bool) :
    Within dir Eq (follow .posix budget tail path isDir)
      (follow .posix budget tail (Style.posix.within dir path) isDir) := by
  unfold follow
  split
  · split
    · exact within_under hpath budget
    · exact within_inDir hpath hne
  · exact .done rfl

/-! ## Whole patterns -/

theorem ofPattern_of_isGlob_head {style : Style} {pattern : Bytes}
    (hhead : isGlob (style.split pattern).head = true) (budget : Nat) :
    ofPattern style budget pattern =
      (ofPattern style budget (style.split pattern).head).visit
        (follow style budget (style.split pattern).tail) := by
  rw [ofPattern]
  exact dif_pos hhead

theorem ofPattern_of_isGlob_tail {style : Style} {pattern : Bytes}
    (hhead : isGlob (style.split pattern).head = false)
    (htail : isGlob (style.split pattern).tail = true) (budget : Nat) :
    ofPattern style budget pattern =
      follow style budget (style.split pattern).tail (style.split pattern).head true := by
  rw [ofPattern, dif_neg (by simp [hhead]), if_pos htail]
  rfl

theorem asked_matching (list : Listing) (style : Style) (pattern : Bytes) (len : Nat)
    (buffer : Bytes) (es : List Entry) :
    (matching style pattern len buffer es).asked list = [] := by
  induction es generalizing buffer with
  | nil => rfl
  | cons e es ih =>
    unfold matching
    split
    · exact ih _
    · exact ih _

/-- One segment asks for one directory, unless it goes down. -/
theorem asked_ofPattern_of_isGlob_tail {list : Listing} {style : Style} {pattern : Bytes}
    (hhead : isGlob (style.split pattern).head = false)
    (htail : isGlob (style.split pattern).tail = true)
    (hrec : isRecursive (style.split pattern).tail = false) (budget : Nat) :
    (ofPattern style budget pattern).asked list =
      [listingPath (style.split pattern).head] := by
  have hne : (style.split pattern).tail ≠ [] := by
    intro hnil
    rw [hnil] at htail
    cases htail
  rw [ofPattern_of_isGlob_tail hhead htail, follow, if_pos rfl, if_neg (by simp [hrec]), inDir,
    if_neg (by simpa using hne), openDir, asked]
  cases list (listingPath (style.split pattern).head) with
  | none => rfl
  | some es => exact congrArg _ (asked_matching ..)

theorem within_ofPattern {pattern : Bytes}
    (hdir : Style.posix.needsSep dir = true ∨ ∀ b ∈ dir, Style.posix.isSep b = true)
    (hplain : isGlob dir = false) (hpattern : Style.posix.isAbsolute pattern = false)
    (hglob : isGlob pattern = true) (hends : Style.posix.needsSep pattern = true) (budget : Nat) :
    Within dir Eq (ofPattern .posix budget pattern)
      (ofPattern .posix budget (Style.posix.within dir pattern)) := by
  have hne : pattern ≠ [] := by
    rintro rfl
    cases hglob
  have hsplit := Style.split_within hdir hpattern hne
  have hhead := Style.isAbsolute_head hpattern
  have htail := Style.tail_ne_nil hends
  have hsame : isGlob (Style.posix.split (Style.posix.within dir pattern)).head =
      isGlob (Style.posix.split pattern).head := by
    rw [hsplit, isGlob_within hhead, hplain, Bool.false_or]
  obtain ⟨hfirst, hneeds, -⟩ | ⟨hfirst, hlast, -⟩ := globCases .posix hglob
  · rw [ofPattern_of_isGlob_head hfirst, ofPattern_of_isGlob_head (hsame.trans hfirst), hsplit]
    refine (within_ofPattern hdir hplain hhead hfirst hneeds budget).visit ?_
    exact fun path isDir hpath => within_follow hpath htail budget isDir
  · have hlonger : isGlob (Style.posix.split (Style.posix.within dir pattern)).tail = true := by
      rw [hsplit]
      exact hlast
    rw [ofPattern_of_isGlob_tail hfirst hlast, ofPattern_of_isGlob_tail (hsame.trans hfirst) hlonger,
      hsplit]
    exact within_follow hhead htail budget true
termination_by pattern.length
decreasing_by exact split_head_lt hfirst

/-! ## What is found -/

/-- Two results: what was found is the same from both places. -/
structure SameFound (dir : Bytes) (R : α → β → Prop) (r : List Event × α)
    (r' : List Event × β) : Prop where
  paths : foundPaths r'.1 = (foundPaths r.1).map (Style.posix.within dir)
  relative : ∀ path ∈ foundPaths r.1, Style.posix.isAbsolute path = false
  result : R r.2 r'.2

theorem foundPaths_append (xs ys : List Event) :
    foundPaths (xs ++ ys) = foundPaths xs ++ foundPaths ys :=
  List.filterMap_append

theorem foundPaths_observed (list : Listing) (dir : Bytes) :
    foundPaths (observed list dir) = [] := by
  unfold observed
  split <;> rfl

theorem sameFound_after {R : α → β → Prop} {events events' : List Event}
    {r : Option (List Event × α)} {r' : Option (List Event × β)}
    (hpaths : foundPaths events' = (foundPaths events).map (Style.posix.within dir))
    (hrelative : ∀ path ∈ foundPaths events, Style.posix.isAbsolute path = false)
    (h : Option.Rel (SameFound dir R) r r') :
    Option.Rel (SameFound dir R) (after events r) (after events' r') := by
  cases h with
  | none => exact .none
  | some h =>
    refine .some ⟨?_, ?_, h.result⟩
    · rw [foundPaths_append, foundPaths_append, List.map_append, hpaths, h.paths]
    · intro path hmem
      rw [foundPaths_append] at hmem
      rcases List.mem_append.1 hmem with hmem | hmem
      · exact hrelative path hmem
      · exact h.relative path hmem

/-- Such searches find the same, if the directories that are asked for have the same entries from
both places. -/
theorem Within.run {inner outer : Listing} {R : α → β → Prop} {x : Search α} {y : Search β}
    (h : Within dir R x y) (hproper : ∀ path, ProperAnswer (inner path))
    (hsame : ∀ path, Style.posix.isAbsolute path = false →
      listingPath (Style.posix.within dir path) ∈ y.asked outer →
      outer (listingPath (Style.posix.within dir path)) = inner (listingPath path)) :
    Option.Rel (SameFound dir R) (x.run inner) (y.run outer) := by
  induction h with
  | done hab => exact .some ⟨rfl, List.forall_mem_nil _, hab⟩
  | lost => exact .none
  | found hpath _ ih =>
    refine sameFound_after rfl ?_ (ih hsame)
    rintro _ (_ | ⟨_, ⟨⟩⟩)
    exact hpath
  | @ask path next next' hpath _ ih =>
    have hanswer := hsame path hpath List.mem_cons_self
    have hrest := ih _ (hproper (listingPath path)) fun path hpath hmem =>
      hsame path hpath (List.mem_cons_of_mem _ (hanswer ▸ hmem))
    rw [Search.run, Search.run, hanswer]
    refine sameFound_after ?_ ?_ hrest
    · rw [foundPaths_observed, foundPaths_observed]
      rfl
    · rw [foundPaths_observed]
      exact List.forall_mem_nil _

end Search

/-- A pattern behind the path of a directory finds what the pattern finds in the directory, in the
same order. -/
theorem collect_within {inner outer : Listing} {dir pattern : Bytes}
    (hdir : Style.posix.needsSep dir = true ∨ ∀ b ∈ dir, Style.posix.isSep b = true)
    (hplain : isGlob dir = false) (hpattern : Style.posix.isAbsolute pattern = false)
    (hglob : isGlob pattern = true) (hends : Style.posix.needsSep pattern = true) {budget : Nat}
    (hproper : ∀ path, ProperAnswer (inner path))
    (hsame : ∀ path, Style.posix.isAbsolute path = false →
      listingPath (Style.posix.within dir path) ∈
        askedDirs outer .posix budget (Style.posix.within dir pattern) →
      outer (listingPath (Style.posix.within dir path)) = inner (listingPath path))
    {found : List Bytes} (hfound : collect inner .posix budget pattern = some found) :
    collect outer .posix budget (Style.posix.within dir pattern) =
        some (found.map (Style.posix.within dir)) ∧
      ∀ path ∈ found, Style.posix.isAbsolute path = false := by
  obtain ⟨events, hwalk, rfl⟩ := Option.map_eq_some_iff.1 hfound
  have hrun := (Search.within_ofPattern hdir hplain hpattern hglob hends budget).run hproper hsame
  rw [Search.run_ofPattern, Search.run_ofPattern, hwalk] at hrun
  rw [collect]
  cases houter : walk outer .posix budget (Style.posix.within dir pattern) with
  | none =>
    rw [houter] at hrun
    cases hrun
  | some events' =>
    rw [houter] at hrun
    cases hrun with
    | some h => exact ⟨congrArg some h.paths, h.relative⟩

end BuildScript.Glob
