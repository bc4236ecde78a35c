import BuildScript.Proofs.Glob.Search
import Mathlib.Data.List.Permutation

/-!
# Walks through directories that agree

A walk cannot tell two places apart that give the same answers to all it asks for. It asks for the
directories that it lists and for those that it cannot list, and every answer to the second kind is
the same, so the listings that are told of are all that is needed to observe the walk again.

* `Search.run_of_agree`: a search depends on what it asks for alone;
* `mem_listedDirs_iff`: what is listed was asked for and answered;
* `walk_of_listed`: a walk is made again from the directories that it listed.
-/

namespace BuildScript.Glob

open BuildScript.Path

variable {list other : Listing}

namespace Search

/-- What is observed on a search, and what it asks for, depends on what it asks for alone. -/
theorem run_of_agree {α : Type} {x : Search α} (h : ∀ dir ∈ x.asked list, other dir = list dir) :
    x.run other = x.run list ∧ x.asked other = x.asked list := by
  induction x with
  | done a => exact ⟨rfl, rfl⟩
  | lost => exact ⟨rfl, rfl⟩
  | found path isDir next ih =>
    obtain ⟨hrun, hasked⟩ := ih h
    exact ⟨by rw [run, run, hrun], hasked⟩
  | ask dir next ih =>
    have hdir : other dir = list dir := h dir List.mem_cons_self
    obtain ⟨hrun, hasked⟩ := ih (list dir) fun later hlater => h later (List.mem_cons_of_mem _ hlater)
    refine ⟨?_, by rw [asked, asked, hdir, hasked]⟩
    rw [run, run, observed, observed, hdir, hrun]

end Search

variable {style : Style} {budget : Nat} {pattern : Bytes} {events : List Event}

theorem mem_listedDirs_iff {dir : Bytes} : dir ∈ listedDirs events ↔ Event.listed dir ∈ events := by
  rw [listedDirs, List.mem_filterMap]
  constructor
  · rintro ⟨event, hevent, hdir⟩
    cases event with
    | found path isDir => cases hdir
    | listed listedDir =>
      obtain rfl := Option.some.inj hdir
      exact hevent
  · intro hevent
    exact ⟨_, hevent, rfl⟩

/-- Every directory that a walk asks for is told of, or cannot be listed. -/
theorem listed_or_refused (hwalk : walk list style budget pattern = some events) {dir : Bytes}
    (hdir : dir ∈ askedDirs list style budget pattern) :
    Event.listed dir ∈ events ∨ list dir = none := by
  cases hlist : list dir with
  | none => exact .inr rfl
  | some entries =>
    left
    rw [← mem_listedDirs_iff, listedDirs_eq_asked hwalk, List.mem_filter]
    exact ⟨hdir, by rw [hlist]; rfl⟩

/-- A walk that ends comes to the same, event by event, wherever the directories that it listed
have the same entries and those that it asked for in vain cannot be listed. It asks for the same
directories there. -/
theorem walk_of_listed (list other : Listing) (style : Style) (budget : Nat) (pattern : Bytes)
    (events : List Event) (hwalk : walk list style budget pattern = some events)
    (hlisted : ∀ dir, Event.listed dir ∈ events → other dir = list dir)
    (hrefused : ∀ dir ∈ askedDirs list style budget pattern, list dir = none → other dir = none) :
    walk other style budget pattern = some events ∧
      askedDirs other style budget pattern = askedDirs list style budget pattern := by
  have hagree : ∀ dir ∈ askedDirs list style budget pattern, other dir = list dir := by
    intro dir hdir
    rcases listed_or_refused hwalk hdir with hevent | hnone
    · exact hlisted dir hevent
    · rw [hrefused dir hdir hnone, hnone]
  obtain ⟨hrun, hasked⟩ := Search.run_of_agree hagree
  refine ⟨?_, hasked⟩
  rw [Search.run_ofPattern, Search.run_ofPattern, hwalk] at hrun
  obtain ⟨others, hothers, hsame⟩ := Option.map_eq_some_iff.1 hrun
  rw [hothers, (Prod.mk.inj hsame).1]

/-- Two directories below the current one. One cannot be listed, and the other one holds a third,
which can be listed or not. -/
def partlyListed (inner : Option (List Entry)) : Listing := fun dir =>
  if dir = Bytes.ofAscii "." then
    some [⟨Bytes.ofAscii "b", true⟩, ⟨Bytes.ofAscii "a", true⟩]
  else if dir = Bytes.ofAscii "a" then
    some [⟨Bytes.ofAscii "x.c", false⟩, ⟨Bytes.ofAscii "t", true⟩]
  else if dir = Bytes.ofAscii "a/t" then inner
  else none

def partlyPattern : Bytes := Bytes.ofAscii "*/*.c"

/-- The third directory in the second tree: it holds a file. -/
def innerFile : Option (List Entry) := some [⟨Bytes.ofAscii "y.c", false⟩]

/-- The listings with the names of the directories as bytes, so that comparing them takes no look
into the texts. -/
theorem partlyListed_eq (inner : Option (List Entry)) : partlyListed inner = fun dir =>
    if dir = [Style.dot] then some [⟨Bytes.ofAscii "b", true⟩, ⟨Bytes.ofAscii "a", true⟩]
    else if dir = [0x61] then some [⟨Bytes.ofAscii "x.c", false⟩, ⟨Bytes.ofAscii "t", true⟩]
    else if dir = [0x61, Style.slash, 0x74] then inner
    else none := rfl

/-- What is in the third directory is not asked for. -/
theorem walk_of_listed_partly :
    partlyListed none (Bytes.ofAscii "a/t") ≠ partlyListed innerFile (Bytes.ofAscii "a/t") ∧
    Bytes.ofAscii "b" ∈ askedDirs (partlyListed none) .posix 0 partlyPattern ∧
    ∃ events, walk (partlyListed none) .posix 0 partlyPattern = some events ∧
      (∀ dir, Event.listed dir ∈ events → partlyListed innerFile dir = partlyListed none dir) ∧
      (∀ dir ∈ askedDirs (partlyListed none) .posix 0 partlyPattern,
        partlyListed none dir = none → partlyListed innerFile dir = none) ∧
      Event.found (Bytes.ofAscii "a/x.c") false ∈ events ∧
      walk (partlyListed innerFile) .posix 0 partlyPattern = some events := by
  have hwalk : walk (partlyListed none) .posix 0 partlyPattern =
      some [.listed (Bytes.ofAscii "."), .listed (Bytes.ofAscii "a"),
        .found (Bytes.ofAscii "a/x.c") false] := by
    rw [partlyListed_eq]
    cbv
  have hasked : askedDirs (partlyListed none) .posix 0 partlyPattern =
      [".", "a", "b"].map Bytes.ofAscii := by
    rw [partlyListed_eq]
    cbv
  have hrefused : ∀ dir ∈ askedDirs (partlyListed none) .posix 0 partlyPattern,
      partlyListed none dir = none → partlyListed innerFile dir = none := by
    rw [hasked]
    decide
  have hlisted : ∀ dir, Event.listed dir ∈ [Event.listed (Bytes.ofAscii "."),
      .listed (Bytes.ofAscii "a"), .found (Bytes.ofAscii "a/x.c") false] →
      partlyListed innerFile dir = partlyListed none dir := by
    intro dir hdir
    rw [← mem_listedDirs_iff] at hdir
    revert dir
    decide
  refine ⟨by decide, by rw [hasked]; decide, _, hwalk, hlisted, hrefused,
    by decide, ?_⟩
  exact (walk_of_listed _ _ _ _ _ _ hwalk hlisted hrefused).1

end BuildScript.Glob
