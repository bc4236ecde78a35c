import BuildScript.Proofs.Glob.Matching

/-!
# Patterns behind one another

A pattern may be cut between two of its pieces, and then the names that match it are those made of
a name for each part. It is cut between two pieces exactly if no class of the front is left without
its end.

* `exists_reads_iff`: a pattern has a reading unless one of its classes has no end;
* `matchesPattern_append_iff`: a pattern that is cut in two;
* `matchesPattern_stars`: as many stars as there are do what one does;
* `matchesPattern_append`: both of them.
-/

namespace BuildScript.Glob

open BuildScript.Path

variable {style : Style}

/-! ## Readings -/

theorem Reads.append {p q : Bytes} {ts us : List Token} (hp : Reads p ts) (hq : Reads q us) :
    Reads (p ++ q) (ts ++ us) := by
  induction hp with
  | nil => exact hq
  | any _ ih => exact .any ih
  | many _ ih => exact .many ih
  | among hnot hhead _ ih =>
    rw [List.cons_append, List.append_assoc]
    exact .among hnot hhead ih
  | notAmong hnot _ ih =>
    rw [List.cons_append, List.cons_append, List.append_assoc]
    exact .notAmong hnot ih
  | byte hw _ ih => exact .byte hw ih

/-- Somewhere behind whole pieces a class begins that has no end. -/
def Unclosed (pattern : Bytes) : Prop :=
  ∃ front ts body, Reads front ts ∧ closeBracket ∉ body ∧ pattern = front ++ openBracket :: body

theorem Unclosed.behind {p q : Bytes} {ts : List Token} (hp : Reads p ts) (hq : Unclosed q) :
    Unclosed (p ++ q) := by
  obtain ⟨front, us, body, hfront, hbody, rfl⟩ := hq
  exact ⟨p ++ front, ts ++ us, body, hp.append hfront, hbody, (List.append_assoc ..).symm⟩

/-- Behind one piece, a pattern is read to its end or not as it is without it. -/
theorem reads_or_unclosed_behind {front rest : Bytes} {ts : List Token} (hfront : Reads front ts)
    (h : (∃ us, Reads rest us) ∨ Unclosed rest) :
    (∃ us, Reads (front ++ rest) us) ∨ Unclosed (front ++ rest) :=
  h.imp (fun ⟨us, hus⟩ => ⟨ts ++ us, hfront.append hus⟩) (Unclosed.behind hfront)

theorem reads_or_unclosed (pattern : Bytes) :
    (∃ ts, Reads pattern ts) ∨ Unclosed pattern := by
  -- Behind a class the pattern goes on with less than what stands behind the first byte.
  induction hn : pattern.length using Nat.strong_induction_on generalizing pattern with
  | _ n ih =>
    subst hn
    cases pattern with
    | nil => exact .inl ⟨[], .nil⟩
    | cons b rest =>
      have hrest : (∃ ts, Reads rest ts) ∨ Unclosed rest :=
        ih rest.length (Nat.lt_succ_self _) rest rfl
      by_cases hq : b = question
      · exact hq ▸ reads_or_unclosed_behind (.any .nil) hrest
      by_cases hs : b = star
      · exact hs ▸ reads_or_unclosed_behind (.many .nil) hrest
      by_cases ho : b = openBracket
      · subst ho
        rcases class_cases rest with hbody | ⟨members, after, hnot, hhead, rfl⟩ |
          ⟨members, after, hnot, rfl⟩
        · exact .inr ⟨[], [], rest, .nil, hbody, rfl⟩
        · have hafter := ih after.length (by simp; omega) after rfl
          simpa using reads_or_unclosed_behind (.among hnot hhead .nil) hafter
        · have hafter := ih after.length (by simp; omega) after rfl
          simpa using reads_or_unclosed_behind (.notAmong hnot .nil) hafter
      · have hw : isWildcard b = false := by simp [isWildcard, hq, hs, ho]
        exact reads_or_unclosed_behind (.byte hw .nil) hrest

/-- A pattern is read to its end unless one of its classes has none. -/
theorem exists_reads_iff {pattern : Bytes} : (∃ ts, Reads pattern ts) ↔ ¬ Unclosed pattern := by
  constructor
  · rintro ⟨us, hus⟩ ⟨front, ts, body, hfront, hbody, rfl⟩
    exact not_reads_of_unclosed hfront hbody hus
  · exact fun h => (reads_or_unclosed pattern).resolve_right h

/-! ## Names -/

theorem spells_append_iff {ts us : List Token} {name : Bytes} :
    Spells style (ts ++ us) name ↔
      ∃ front back, name = front ++ back ∧ Spells style ts front ∧ Spells style us back := by
  induction ts generalizing name with
  | nil =>
    constructor
    · intro h
      exact ⟨[], name, rfl, .nil, h⟩
    · rintro ⟨front, back, rfl, hfront, hback⟩
      cases hfront
      exact hback
  | cons t ts ih =>
    constructor
    · intro h
      cases h with
      | @cons _ _ part rest htake hrest =>
        obtain ⟨front, back, rfl, hfront, hback⟩ := ih.1 hrest
        exact ⟨part ++ front, back, (List.append_assoc ..).symm, .cons htake hfront, hback⟩
    · rintro ⟨front, back, rfl, hfront, hback⟩
      cases hfront with
      | @cons _ _ part rest htake hrest =>
        rw [List.append_assoc]
        exact .cons htake (ih.2 ⟨rest, back, rfl, hrest, hback⟩)

/-- Where a pattern is cut between two pieces, a name that matches is cut, too. -/
theorem matchesPattern_append_iff {p q name : Bytes} {ts : List Token} (hp : Reads p ts) :
    matchesPattern style name (p ++ q) = true ↔
      ∃ front back, name = front ++ back ∧ matchesPattern style front p = true ∧
        matchesPattern style back q = true := by
  simp only [matchesPattern_iff]
  constructor
  · rintro ⟨us, hreads, hspells⟩
    obtain ⟨vs, hq, rfl⟩ := hp.of_append hreads
    obtain ⟨front, back, hname, hfront, hback⟩ := spells_append_iff.1 hspells
    exact ⟨front, back, hname, ⟨ts, hp, hfront⟩, ⟨vs, hq, hback⟩⟩
  · rintro ⟨front, back, hname, ⟨us, hus, hfront⟩, ⟨vs, hq, hback⟩⟩
    exact ⟨us ++ vs, hus.append hq, spells_append_iff.2 ⟨front, back, hname, hfront, hback⟩⟩

/-- A star stands for any front of a name. -/
theorem matchesPattern_star_cons_iff {q name : Bytes} :
    matchesPattern style name (star :: q) = true ↔
      ∃ back, back <:+ name ∧ matchesPattern style back q = true := by
  simp only [matchesPattern_iff]
  exact fits_star_iff

/-- A star behind another one adds nothing. -/
theorem matchesPattern_star_star (q name : Bytes) :
    matchesPattern style name (star :: star :: q) = matchesPattern style name (star :: q) := by
  rw [Bool.eq_iff_iff, matchesPattern_star_cons_iff, matchesPattern_star_cons_iff]
  constructor
  · rintro ⟨middle, hmiddle, h⟩
    obtain ⟨back, hback, h⟩ := matchesPattern_star_cons_iff.1 h
    exact ⟨back, hback.trans hmiddle, h⟩
  · rintro ⟨back, hback, h⟩
    exact ⟨back, hback, matchesPattern_star_cons_iff.2 ⟨back, List.suffix_refl back, h⟩⟩

theorem matchesPattern_stars (n : Nat) (q name : Bytes) :
    matchesPattern style name (List.replicate (n + 1) star ++ q) =
      matchesPattern style name (star :: q) := by
  induction n with
  | zero => rfl
  | succ n ih =>
    rw [List.replicate_succ, List.replicate_succ, List.cons_append, List.cons_append,
      matchesPattern_star_star, ← ih, List.replicate_succ, List.cons_append]

/-- A pattern none of whose classes lacks its end, with any other behind it, is matched by the
names made of two that match the two of them. So a run of stars between two pieces may be replaced
by one star. -/
theorem matchesPattern_append (style : Style) {p : Bytes} (hp : ¬ Unclosed p) (q name : Bytes) :
    (matchesPattern style name (p ++ q) = true ↔
      ∃ front back, name = front ++ back ∧ matchesPattern style front p = true ∧
        matchesPattern style back q = true) ∧
    ∀ n, matchesPattern style name (p ++ (List.replicate (n + 1) star ++ q)) =
      matchesPattern style name (p ++ star :: q) := by
  obtain ⟨ts, hts⟩ := exists_reads_iff.2 hp
  refine ⟨matchesPattern_append_iff hts, ?_⟩
  intro n
  rw [Bool.eq_iff_iff, matchesPattern_append_iff hts, matchesPattern_append_iff hts]
  simp only [matchesPattern_stars]

/-- The stars in the class are members of it. -/
def starClass : Bytes := Bytes.ofAscii "?[!**]"

theorem starClass_closed : ¬ Unclosed starClass := by
  have heq : starClass = question :: openBracket :: bang :: ([star, star] ++ [closeBracket]) := rfl
  rw [← exists_reads_iff, heq]
  exact ⟨_, .any (.notAmong (by decide) .nil)⟩

theorem matchesPattern_append_starClass :
    ¬ Unclosed starClass ∧
    (∃ front back, Bytes.ofAscii "*xRS" = front ++ back ∧
      matchesPattern .windows front starClass = true ∧
      matchesPattern .windows back (Bytes.ofAscii "*r?") = true) ∧
    matchesPattern .windows (Bytes.ofAscii "*xRS") (starClass ++ Bytes.ofAscii "***r?") = true := by
  obtain ⟨hcut, -⟩ := matchesPattern_append .windows starClass_closed (Bytes.ofAscii "*r?")
    (Bytes.ofAscii "*xRS")
  obtain ⟨-, hstars⟩ := matchesPattern_append .windows starClass_closed (Bytes.ofAscii "r?")
    (Bytes.ofAscii "*xRS")
  have hmatch : matchesPattern .windows (Bytes.ofAscii "*xRS")
      (starClass ++ star :: Bytes.ofAscii "r?") = true := by decide +kernel
  exact ⟨starClass_closed, hcut.1 hmatch, (hstars 2).trans hmatch⟩

/-- A class may not be cut: what matches it need not be made of names for the two parts. -/
example : matchesPattern .posix [0x61] ([openBracket] ++ [0x61, closeBracket]) = true ∧
    matchesPattern .posix [] [openBracket] = false := by decide +kernel

end BuildScript.Glob
