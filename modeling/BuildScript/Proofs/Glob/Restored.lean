import BuildScript.Proofs.Glob.Budget

/-!
# One buffer for all paths

On the way down every path is made in one buffer. An entry puts its name behind the path of its
directory, what is below the entry is visited with that path in the buffer, and then the buffer is
cut back to the length it had. As long as no name stands alone, the cut leaves what was there: every
entry of a directory finds the same path, and the path of an entry is the path of the start with the
names on the way behind it.

* `Enters`: the calls that a call on the way down makes;
* `Leads`: the names on the way to an entry;
* `snd_of_descend`, `mem_descend_iff`: what is in the buffer at the end, and what is observed;
* `isSome_descend_succ`: a way down ends exactly if the calls that it makes do;
* `matchingBuffer_eq`: the same buffer in the loop over one directory;
* `buffer_restored`: the main result.
-/

namespace BuildScript.Glob

open BuildScript.Path

/-! ## Calls -/

/-- A call on the way down: the path in the buffer, and entries of the directory there. -/
structure Call where
  dir : Bytes
  entries : List Entry

/-- What is observed of an entry by itself: it is found, and listed if it is a directory that can be
opened. -/
def Entry.events (list : Listing) (path : Bytes) (e : Entry) : List Event :=
  .found path e.isDir ::
    if e.isDir && (open? list path).isSome then [.listed (listingPath path)] else []

section Calls

variable (list : Listing) (style : Style)

/-- The call that is made for an entry, if it is a directory that can be opened. -/
def enter? (dir : Bytes) (e : Entry) : Option Call :=
  if e.isDir then
    (open? list (style.join dir e.name)).map fun children => ⟨style.join dir e.name, children⟩
  else none

/-- Whether a call is made right from another one. -/
def Enters (inner outer : Call) : Prop :=
  ∃ e ∈ outer.entries, enter? list style outer.dir e = some inner

/-- The names that lead from a call to an entry, through the calls in between. -/
inductive Leads : Call → List Bytes → Entry → Prop
  | here {call : Call} {e : Entry} : e ∈ call.entries → Leads call [e.name] e
  | deeper {outer inner : Call} {e met : Entry} {names : List Bytes} :
      e ∈ outer.entries → enter? list style outer.dir e = some inner → Leads inner names met →
      Leads outer (e.name :: names) met

/-- Whether none of the names that are met stands alone behind a path. -/
def NoneAbsolute (call : Call) : Prop :=
  ∀ names e, Leads list style call names e → style.isAbsolute e.name = false

/-- What there is to observe: every entry that is met, under the path of the start with the names on
the way behind it. -/
def Tells (call : Call) (event : Event) : Prop :=
  ∃ names e, Leads list style call names e ∧
    event ∈ e.events list (style.joinAll (call.dir :: names))

end Calls

variable {list : Listing} {style : Style}

theorem enter?_eq_some_iff {dir : Bytes} {e : Entry} {inner : Call} :
    enter? list style dir e = some inner ↔
      e.isDir = true ∧ inner.dir = style.join dir e.name ∧
        open? list inner.dir = some inner.entries := by
  obtain ⟨path, entries⟩ := inner
  rw [enter?]
  by_cases hdir : e.isDir = true
  · rw [if_pos hdir, Option.map_eq_some_iff]
    constructor
    · rintro ⟨children, hopen, heq⟩
      cases heq
      exact ⟨hdir, rfl, hopen⟩
    · rintro ⟨-, rfl, hopen⟩
      exact ⟨entries, hopen, rfl⟩
  · simp [hdir]

theorem NoneAbsolute.entry {call : Call} (h : NoneAbsolute list style call) {e : Entry}
    (he : e ∈ call.entries) : style.isAbsolute e.name = false :=
  h [e.name] e (.here he)

theorem NoneAbsolute.inner {inner outer : Call} (h : NoneAbsolute list style outer) {e : Entry}
    (he : e ∈ outer.entries) (henter : enter? list style outer.dir e = some inner) :
    NoneAbsolute list style inner :=
  fun names met hleads => h (e.name :: names) met (.deeper he henter hleads)

/-- Names that never stand alone do not do so where they are met. -/
theorem noneAbsolute_of_listed (h : ∀ path es, list path = some es → ∀ e ∈ es,
    style.isAbsolute e.name = false) {call : Call}
    (hcall : ∀ e ∈ call.entries, style.isAbsolute e.name = false) :
    NoneAbsolute list style call := by
  intro names met hleads
  induction hleads with
  | here he => exact hcall _ he
  | deeper he henter _ ih =>
    refine ih fun e hmem => ?_
    obtain ⟨es, hes, hbyName⟩ := Option.map_eq_some_iff.1 (enter?_eq_some_iff.1 henter).2.2
    rw [← hbyName] at hmem
    exact h _ es hes e (List.mem_mergeSort.1 hmem)

/-- What there is to observe of an entry is the entry itself and what its call tells. -/
theorem tells_iff {call : Call} {event : Event} :
    Tells list style call event ↔ ∃ e ∈ call.entries,
      event ∈ e.events list (style.join call.dir e.name) ∨
      ∃ inner, enter? list style call.dir e = some inner ∧ Tells list style inner event := by
  constructor
  · rintro ⟨names, met, hleads, hevent⟩
    cases hleads with
    | here he =>
      rw [Style.joinAll_cons] at hevent
      exact ⟨met, he, .inl hevent⟩
    | @deeper _ inner e _ names he henter hleads =>
      rw [Style.joinAll_cons_cons, ← (enter?_eq_some_iff.1 henter).2.1] at hevent
      exact ⟨e, he, .inr ⟨inner, henter, names, met, hleads, hevent⟩⟩
  · rintro ⟨e, he, hevent | ⟨inner, henter, names, met, hleads, hevent⟩⟩
    · refine ⟨[e.name], e, .here he, ?_⟩
      rwa [Style.joinAll_cons]
    · refine ⟨e.name :: names, met, .deeper he henter hleads, ?_⟩
      rwa [Style.joinAll_cons_cons, ← (enter?_eq_some_iff.1 henter).2.1]

/-! ## One entry -/

section Entry

variable {below : Bytes → List Entry → Option (List Event × Bytes)} {dir : Bytes} {e : Entry}

theorem visitEntry_eq (below : Bytes → List Entry → Option (List Event × Bytes)) (dir : Bytes)
    (e : Entry) :
    visitEntry list style below dir e =
      match enter? list style dir e with
      | none => some (e.events list (style.join dir e.name), style.join dir e.name)
      | some inner => (below inner.dir inner.entries).map fun r =>
          (e.events list (style.join dir e.name) ++ r.1, r.2) := by
  rw [visitEntry, enter?, Entry.events]
  by_cases hdir : e.isDir = true
  · rw [if_pos hdir, if_pos hdir, hdir]
    cases open? list (style.join dir e.name) <;> rfl
  · have hfile : e.isDir = false := by simpa using hdir
    rw [if_neg hdir, if_neg hdir, hfile]
    rfl

theorem isSome_visitEntry_iff :
    (visitEntry list style below dir e).isSome ↔
      ∀ inner, enter? list style dir e = some inner → (below inner.dir inner.entries).isSome := by
  rw [visitEntry_eq]
  cases enter? list style dir e <;> simp

theorem snd_of_visitEntry {r : List Event × Bytes}
    (h : visitEntry list style below dir e = some r)
    (hbelow : ∀ inner s, enter? list style dir e = some inner →
      below inner.dir inner.entries = some s → s.2 = inner.dir) :
    r.2 = style.join dir e.name := by
  rw [visitEntry_eq] at h
  cases henter : enter? list style dir e with
  | none =>
    rw [henter] at h
    rw [← Option.some.inj h]
  | some inner =>
    rw [henter] at h
    obtain ⟨s, hs, rfl⟩ := Option.map_eq_some_iff.1 h
    rw [hbelow inner s henter hs]
    exact (enter?_eq_some_iff.1 henter).2.1

theorem mem_visitEntry_iff {r : List Event × Bytes} {event : Event}
    (h : visitEntry list style below dir e = some r) :
    event ∈ r.1 ↔ event ∈ e.events list (style.join dir e.name) ∨
      ∃ inner s, enter? list style dir e = some inner ∧ below inner.dir inner.entries = some s ∧
        event ∈ s.1 := by
  rw [visitEntry_eq] at h
  cases henter : enter? list style dir e with
  | none =>
    rw [henter] at h
    simp [← Option.some.inj h]
  | some inner =>
    rw [henter] at h
    obtain ⟨s, hs, rfl⟩ := Option.map_eq_some_iff.1 h
    rw [List.mem_append]
    refine or_congr_right ⟨fun hevent => ⟨inner, s, rfl, hs, hevent⟩, ?_⟩
    rintro ⟨other, t, hother, ht, hevent⟩
    obtain rfl := Option.some.inj hother
    rwa [Option.some.inj (hs.symm.trans ht)]

end Entry

/-! ## The entries of a directory -/

section Entries

variable {below : Bytes → List Entry → Option (List Event × Bytes)} {len : Nat} {buffer : Bytes}
  {entries : List Entry}
  (hback : ∀ e ∈ entries, ∀ r, visitEntry list style below buffer e = some r →
    r.2.take len = buffer)
include hback

theorem isSome_visitEntries_iff :
    (visitEntries list style below len buffer entries).isSome ↔
      ∀ e ∈ entries, (visitEntry list style below buffer e).isSome := by
  induction entries with
  | nil => simp [visitEntries]
  | cons e entries ih =>
    have hrest := ih fun b hb => hback b (List.mem_cons_of_mem _ hb)
    rw [visitEntries, List.forall_mem_cons, ← hrest]
    cases hvisit : visitEntry list style below buffer e with
    | none => simp
    | some r => simp [hback e List.mem_cons_self r hvisit]

theorem snd_of_visitEntries {r : List Event × Bytes}
    (h : visitEntries list style below len buffer entries = some r) : r.2 = buffer := by
  induction entries generalizing r with
  | nil => rw [← Option.some.inj h]
  | cons e entries ih =>
    obtain ⟨first, hfirst, h⟩ := Option.bind_eq_some_iff.1 h
    obtain ⟨rest, hrest, rfl⟩ := Option.map_eq_some_iff.1 h
    rw [hback e List.mem_cons_self first hfirst] at hrest
    have hsnd := ih (fun b hb => hback b (List.mem_cons_of_mem _ hb)) hrest
    exact hsnd

theorem mem_visitEntries_iff {r : List Event × Bytes} {event : Event}
    (h : visitEntries list style below len buffer entries = some r) :
    event ∈ r.1 ↔
      ∃ e ∈ entries, ∃ s, visitEntry list style below buffer e = some s ∧ event ∈ s.1 := by
  induction entries generalizing r with
  | nil => simp [← Option.some.inj h]
  | cons e entries ih =>
    obtain ⟨first, hfirst, h⟩ := Option.bind_eq_some_iff.1 h
    obtain ⟨rest, hrest, rfl⟩ := Option.map_eq_some_iff.1 h
    rw [hback e List.mem_cons_self first hfirst] at hrest
    rw [List.mem_append, List.exists_mem_cons_iff,
      ih (fun b hb => hback b (List.mem_cons_of_mem _ hb)) hrest, hfirst]
    simp

end Entries

/-! ## The way down -/

section Down

variable {call : Call} (h : NoneAbsolute list style call)
include h

/-- At the end the buffer is as it was. -/
theorem snd_of_descend {budget : Nat} {r : List Event × Bytes}
    (hr : descend list style budget call.dir call.entries = some r) : r.2 = call.dir := by
  induction budget generalizing call r with
  | zero => cases hr
  | succ budget ih =>
    rw [descend] at hr
    refine snd_of_visitEntries ?_ hr
    intro e he s hs
    rw [snd_of_visitEntry hs fun inner t henter ht => ih (h.inner he henter) ht]
    exact Style.take_join (h.entry he)

/-- So it is behind every entry. -/
theorem take_of_visitEntry (budget : Nat) (e : Entry) (he : e ∈ call.entries)
    (r : List Event × Bytes)
    (hr : visitEntry list style (descend list style budget) call.dir e = some r) :
    r.2.take call.dir.length = call.dir := by
  rw [snd_of_visitEntry hr fun inner s henter hs => snd_of_descend (h.inner he henter) hs]
  exact Style.take_join (h.entry he)

/-- A way down has a result exactly if all the calls that it makes have one. -/
theorem isSome_descend_succ {budget : Nat} :
    (descend list style (budget + 1) call.dir call.entries).isSome ↔
      ∀ inner, Enters list style inner call →
        (descend list style budget inner.dir inner.entries).isSome := by
  rw [descend, isSome_visitEntries_iff (take_of_visitEntry h budget)]
  simp only [isSome_visitEntry_iff]
  constructor
  · rintro hall inner ⟨e, he, henter⟩
    exact hall e he inner henter
  · intro hall e he inner henter
    exact hall inner ⟨e, he, henter⟩

/-- What is observed is what there is to observe. -/
theorem mem_descend_iff {budget : Nat} {r : List Event × Bytes} {event : Event}
    (hr : descend list style budget call.dir call.entries = some r) :
    event ∈ r.1 ↔ Tells list style call event := by
  induction budget generalizing call r with
  | zero => cases hr
  | succ budget ih =>
    have hback := take_of_visitEntry h budget
    rw [descend] at hr
    rw [mem_visitEntries_iff hback hr, tells_iff]
    refine exists_congr fun e => and_congr_right fun he => ?_
    constructor
    · rintro ⟨s, hs, hevent⟩
      refine ((mem_visitEntry_iff hs).1 hevent).imp_right ?_
      rintro ⟨inner, t, henter, ht, hevent⟩
      exact ⟨inner, henter, (ih (h.inner he henter) ht).1 hevent⟩
    · intro hevent
      have hsome := (isSome_visitEntries_iff hback).1 (Option.isSome_iff_exists.2 ⟨r, hr⟩) e he
      obtain ⟨s, hs⟩ := Option.isSome_iff_exists.1 hsome
      refine ⟨s, hs, (mem_visitEntry_iff hs).2 (hevent.imp_right ?_)⟩
      rintro ⟨inner, henter, htells⟩
      obtain ⟨t, ht⟩ := Option.isSome_iff_exists.1 (isSome_visitEntry_iff.1 hsome inner henter)
      exact ⟨inner, t, henter, ht, (ih (h.inner he henter) ht).2 htells⟩

theorem exists_descend_iff_acc :
    (∃ budget, (descend list style budget call.dir call.entries).isSome) ↔
      Acc (Enters list style) call := by
  constructor
  · rintro ⟨budget, hsome⟩
    induction budget generalizing call with
    | zero => cases hsome
    | succ budget ih =>
      refine Acc.intro call fun inner henters => ?_
      obtain ⟨e, he, henter⟩ := henters
      exact ih (h.inner he henter) ((isSome_descend_succ h).1 hsome inner ⟨e, he, henter⟩)
  · intro hacc
    induction hacc with
    | intro call _ ih =>
      have hentry : ∀ e ∈ call.entries, ∃ budget, ∀ inner,
          enter? list style call.dir e = some inner →
            (descend list style budget inner.dir inner.entries).isSome := by
        intro e he
        cases henter : enter? list style call.dir e with
        | none => exact ⟨0, by simp⟩
        | some inner =>
          obtain ⟨budget, hbudget⟩ := ih inner ⟨e, he, henter⟩ (h.inner he henter)
          exact ⟨budget, by simpa using hbudget⟩
      choose! budget hbudget using hentry
      refine ⟨(call.entries.map budget).foldr max 0 + 1, (isSome_descend_succ h).2 ?_⟩
      rintro inner ⟨e, he, henter⟩
      have hle : budget e ≤ (call.entries.map budget).foldr max 0 :=
        List.le_max_of_le' 0 (List.mem_map_of_mem he) (Nat.le_refl _)
      obtain ⟨r, hr⟩ := Option.isSome_iff_exists.1 (hbudget e he inner henter)
      rw [descend_extends hle _ _ _ hr]
      rfl

end Down

/-! ## The loop over one directory -/

/-- What is in the buffer behind the loop over the entries of one directory. -/
def matchingBuffer (style : Style) (pattern : Bytes) (len : Nat) : Bytes → List Entry → Bytes
  | buffer, [] => buffer
  | buffer, e :: rest =>
    if matchesPattern style e.name pattern then
      matchingBuffer style pattern len ((style.join buffer e.name).take len) rest
    else matchingBuffer style pattern len buffer rest

section Loop

variable {pattern : Bytes}

/-- The loop goes on with what is in the buffer then. -/
theorem matching_append (style : Style) (pattern : Bytes) (len : Nat) (buffer : Bytes)
    (before after : List Entry) :
    matching style pattern len buffer (before ++ after) =
      matching style pattern len buffer before ++
        matching style pattern len (matchingBuffer style pattern len buffer before) after := by
  induction before generalizing buffer with
  | nil => rfl
  | cons e before ih =>
    rw [List.cons_append, matching, matching, matchingBuffer]
    dsimp only
    split
    · rw [ih, List.cons_append]
    · exact ih buffer

theorem matchingBuffer_eq {buffer : Bytes} {entries : List Entry}
    (h : ∀ e ∈ entries, style.isAbsolute e.name = false) :
    matchingBuffer style pattern buffer.length buffer entries = buffer := by
  induction entries with
  | nil => rfl
  | cons e entries ih =>
    have hrest := ih fun b hb => h b (List.mem_cons_of_mem _ hb)
    have htake := @Style.take_join style buffer e.name (h e List.mem_cons_self)
    rw [matchingBuffer, htake, hrest, ite_self]

end Loop

/-- A name without a slash does not stand alone where nothing else separates. -/
theorem not_isAbsolute_of_slash_not_mem {name : Bytes} (h : Style.slash ∉ name) :
    Style.posix.isAbsolute name = false :=
  Style.isAbsolute_segment fun _ hb => beq_false_of_ne fun heq => h (heq ▸ hb)

/-- If no name that is met stands alone, the buffer is as it was behind every entry and at the end
of the way down, and what is observed are the entries that are met, under the path of the start with
the names on the way behind it. The same buffer is there behind every entry in the loop over one
directory, and what is found there are the entries, under the path of the directory with their names
behind it. Names without a slash never stand alone where nothing else separates. -/
theorem buffer_restored (list : Listing) (style : Style) (call : Call) :
    (NoneAbsolute list style call →
      ((∃ budget, (descend list style budget call.dir call.entries).isSome) ↔
        Acc (Enters list style) call) ∧
      ∀ budget,
        (∀ before, before <+: call.entries → ∀ r,
          visitEntries list style (descend list style budget) call.dir.length call.dir before =
            some r → r.2 = call.dir) ∧
        ∀ r, descend list style budget call.dir call.entries = some r →
          r.2 = call.dir ∧ ∀ event, event ∈ r.1 ↔ Tells list style call event) ∧
    ((∀ e ∈ call.entries, style.isAbsolute e.name = false) → ∀ pattern,
      (∀ before after, before ++ after = call.entries →
        matchingBuffer style pattern call.dir.length call.dir before = call.dir ∧
        matching style pattern call.dir.length call.dir call.entries =
          matching style pattern call.dir.length call.dir before ++
            matching style pattern call.dir.length call.dir after) ∧
      matching style pattern call.dir.length call.dir call.entries =
        (call.entries.filter fun e => matchesPattern style e.name pattern).map fun e =>
          .found (style.join call.dir e.name) e.isDir) ∧
    ((∀ path es, list path = some es → ∀ e ∈ es, Style.slash ∉ e.name) →
      (∀ e ∈ call.entries, Style.slash ∉ e.name) → NoneAbsolute list .posix call) := by
  refine ⟨fun h => ⟨exists_descend_iff_acc h, fun budget => ⟨?_, ?_⟩⟩, ?_, ?_⟩
  · intro before hbefore r hr
    exact snd_of_visitEntries (fun e he => take_of_visitEntry h budget e (hbefore.subset he)) hr
  · intro r hr
    exact ⟨snd_of_descend h hr, fun event => mem_descend_iff h hr⟩
  · intro h pattern
    refine ⟨?_, matching_eq h⟩
    intro before after heq
    have hbuffer : matchingBuffer style pattern call.dir.length call.dir before = call.dir :=
      matchingBuffer_eq fun e he => h e (heq ▸ List.mem_append_left after he)
    have happend := matching_append style pattern call.dir.length call.dir before after
    rw [hbuffer, heq] at happend
    exact ⟨hbuffer, happend⟩
  · intro hlist hcall
    exact noneAbsolute_of_listed
      (fun path es hes e he => not_isAbsolute_of_slash_not_mem (hlist path es hes e he))
      fun e he => not_isAbsolute_of_slash_not_mem (hcall e he)

/-- A directory of a drive in which there is a directory that cannot be opened. -/
def driveList : Listing := fun path =>
  if path = Bytes.ofAscii "c:\\a" then some [⟨Bytes.ofAscii "b", true⟩] else none

/-- The way down from the drive, whose path gets a separator in front of every name. -/
def driveCall : Call :=
  ⟨Bytes.ofAscii "c:", [⟨Bytes.ofAscii "a", true⟩, ⟨Bytes.ofAscii "m", false⟩]⟩

def driveInner : Call := ⟨Bytes.ofAscii "c:\\a", [⟨Bytes.ofAscii "b", true⟩]⟩

theorem name_of_driveList {path : Bytes} {es : List Entry} (h : driveList path = some es)
    {e : Entry} (he : e ∈ es) : e.name = Bytes.ofAscii "b" := by
  rw [driveList] at h
  split at h
  · rw [← Option.some.inj h, List.mem_singleton] at he
    rw [he]
  · cases h

theorem noneAbsolute_driveCall : NoneAbsolute driveList .windows driveCall := by
  refine noneAbsolute_of_listed (fun path es hes e he => ?_) (by decide)
  rw [name_of_driveList hes he]
  decide

theorem enter?_driveCall :
    enter? driveList .windows driveCall.dir ⟨Bytes.ofAscii "a", true⟩ = some driveInner := by
  have hpath : listingPath driveInner.dir = Bytes.ofAscii "c:\\a" := by decide
  refine enter?_eq_some_iff.2 ⟨rfl, by decide, ?_⟩
  rw [open?, hpath, driveList, if_pos rfl, Option.map_some, byName, List.mergeSort_singleton]
  rfl

theorem enter?_driveInner :
    enter? driveList .windows driveInner.dir ⟨Bytes.ofAscii "b", true⟩ = none := by
  have hnone : driveList (listingPath (Style.windows.join driveInner.dir (Bytes.ofAscii "b"))) =
      none := by decide
  rw [enter?, open?, hnone]
  rfl

theorem isSome_descend_driveCall :
    (descend driveList .windows 2 driveCall.dir driveCall.entries).isSome := by
  have hnone := noneAbsolute_driveCall
  refine (isSome_descend_succ hnone).2 ?_
  rintro inner ⟨e, he, henter⟩
  obtain rfl | rfl : e = ⟨Bytes.ofAscii "a", true⟩ ∨ e = ⟨Bytes.ofAscii "m", false⟩ := by
    simpa [driveCall] using he
  · obtain rfl := Option.some.inj (enter?_driveCall.symm.trans henter)
    refine (isSome_descend_succ (hnone.inner he henter)).2 ?_
    rintro inner ⟨e, he, henter⟩
    rw [List.mem_singleton.1 he, enter?_driveInner] at henter
    cases henter
  · cases henter

theorem buffer_restored_drive :
    NoneAbsolute driveList .windows driveCall ∧
    (∀ e ∈ driveCall.entries, Style.windows.isAbsolute e.name = false) ∧
    (∀ path es, driveList path = some es → ∀ e ∈ es, Style.slash ∉ e.name) ∧
    (∀ e ∈ driveCall.entries, Style.slash ∉ e.name) ∧
    (∃ r, descend driveList .windows 2 driveCall.dir driveCall.entries = some r ∧
      r.2 = Bytes.ofAscii "c:" ∧ .found (Bytes.ofAscii "c:\\a\\b") true ∈ r.1) ∧
    matching .windows (Bytes.ofAscii "?") 2 driveCall.dir driveCall.entries =
      [.found (Bytes.ofAscii "c:\\a") true, .found (Bytes.ofAscii "c:\\m") false] ∧
    NoneAbsolute driveList .posix driveCall := by
  obtain ⟨hdown, hloop, hposix⟩ := buffer_restored driveList .windows driveCall
  have hentries : ∀ e ∈ driveCall.entries, Style.windows.isAbsolute e.name = false := by
    decide
  have hslash : ∀ path es, driveList path = some es → ∀ e ∈ es, Style.slash ∉ e.name := by
    intro path es hes e he
    rw [name_of_driveList hes he]
    decide
  have hcall : ∀ e ∈ driveCall.entries, Style.slash ∉ e.name := by decide
  obtain ⟨r, hr⟩ := Option.isSome_iff_exists.1 isSome_descend_driveCall
  obtain ⟨hback, hmem⟩ := ((hdown noneAbsolute_driveCall).2 2).2 r hr
  refine ⟨noneAbsolute_driveCall, hentries, hslash, hcall, ⟨r, hr, hback, (hmem _).2 ?_⟩, ?_,
    hposix hslash hcall⟩
  · exact ⟨_, _, .deeper List.mem_cons_self enter?_driveCall (.here List.mem_cons_self),
      by decide⟩
  · exact (hloop hentries _).2.trans (by cbv)

end BuildScript.Glob
