import BuildScript.Proofs.Glob.Concatenation
import BuildScript.Proofs.Text.Letters

/-!
# Matching without regard to case

Where case does not matter, a name is matched as it would be with all its letters and those of the
pattern in lower case where case does matter. No byte that has a meaning in a pattern is a letter,
so the two cursors go the same way over a name and a pattern in lower case, and a class has its
members in lower case and its end where it was.

* `parseClass_lower`: a class in lower case;
* `scan_lower`: the two cursors, wherever they stand;
* `matchesPattern_recased`: what becomes of matches.
-/

namespace BuildScript.Glob

open BuildScript.Path

theorem lowerByte_beq {c : UInt8} (hc : ¬ Bytes.IsLetter c) (b : UInt8) :
    (Bytes.lowerByte b == c) = (b == c) := by
  rw [Bool.eq_iff_iff, beq_iff_eq, beq_iff_eq, Bytes.lowerByte_eq_iff_eq hc]

theorem head?_lower_beq_bang (body : Bytes) :
    ((Bytes.lower body).head? == some bang) = (body.head? == some bang) := by
  cases body with
  | nil => rfl
  | cons b body => exact lowerByte_beq (by decide) b

theorem findIdx?_lower (body : Bytes) :
    (Bytes.lower body).findIdx? (· == closeBracket) = body.findIdx? (· == closeBracket) := by
  rw [Bytes.lower, List.findIdx?_map]
  congr 1
  funext b
  exact lowerByte_beq (by decide) b

/-- A class with its members in lower case. -/
def CharClass.lower (cls : CharClass) : CharClass := { cls with members := Bytes.lower cls.members }

theorem parseClass_lower (body : Bytes) :
    parseClass (Bytes.lower body) = (parseClass body).map CharClass.lower := by
  rw [parseClass, parseClass, head?_lower_beq_bang, Bytes.length_lower, Bytes.drop_lower,
    findIdx?_lower]
  by_cases hstart : (body.head? == some bang).toNat = body.length
  · rw [if_pos hstart, if_pos hstart]
    rfl
  · rw [if_neg hstart, if_neg hstart]
    cases (body.drop (body.head? == some bang).toNat).findIdx? (· == closeBracket) with
    | none => rfl
    | some n =>
      simp only [Bytes.take_lower, Bytes.drop_lower]
      rfl

theorem any_lower (members : Bytes) (c : UInt8) :
    (Bytes.lower members).any (Style.posix.eqByte (Bytes.lowerByte c)) =
      members.any (Style.windows.eqByte c) := by
  rw [Bytes.lower, List.any_map]
  rfl

/-- The cursors go over a name and a pattern in lower case as they do over both as they are. -/
theorem scan_lower (name pattern : Bytes) (i j : Nat) :
    scan .posix (Bytes.lower name) (Bytes.lower pattern) i j = scan .windows name pattern i j := by
  -- On what is left of the pattern, which is less behind any piece.
  induction hn : pattern.length - j using Nat.strong_induction_on generalizing name pattern i j with
  | _ n ih =>
    subst hn
    have hlength := Bytes.length_lower pattern
    unfold scan
    rw [Bytes.length_lower name]
    by_cases hj : j < pattern.length
    · have hnext : ∀ k, j < k → scan .posix (Bytes.lower name) (Bytes.lower pattern) (i + 1) k =
          scan .windows name pattern (i + 1) k :=
        fun k hk => ih (pattern.length - k) (by omega) name pattern (i + 1) k rfl
      have hends : ∀ k, scan .posix (Bytes.lower (name.drop k))
            (Bytes.lower (pattern.drop (j + 1))) 0 0 =
          scan .windows (name.drop k) (pattern.drop (j + 1)) 0 0 :=
        fun k => ih _ (by rw [List.length_drop]; omega) _ _ 0 0 rfl
      have hj' : j < (Bytes.lower pattern).length := hlength ▸ hj
      have hb : (Bytes.lower pattern)[j] = Bytes.lowerByte pattern[j] := List.getElem_map _
      have hname : (Bytes.lower name)[i]? = name[i]?.map Bytes.lowerByte := List.getElem?_map
      have hempty : (Bytes.lower (pattern.drop (j + 1))).isEmpty =
          (pattern.drop (j + 1)).isEmpty := List.isEmpty_map
      rw [dif_pos hj', dif_pos hj]
      simp only [hb, hname, Bytes.drop_lower, hempty, hends, parseClass_lower,
        lowerByte_beq (c := question) (by decide), lowerByte_beq (c := star) (by decide),
        lowerByte_beq (c := openBracket) (by decide), hnext (j + 1) (Nat.lt_succ_self j)]
      cases name[i]? with
      | none => rfl
      | some c =>
        cases parseClass (pattern.drop (j + 1)) with
        | none => rfl
        | some cls =>
          have hbehind := hnext (j + cls.offset + 1) (by omega)
          simp only [Option.map_some, CharClass.lower, any_lower, hbehind]
          rfl
    · rw [dif_neg (hlength ▸ hj), dif_neg hj]

theorem matchesPattern_lower (name pattern : Bytes) :
    matchesPattern .posix (Bytes.lower name) (Bytes.lower pattern) =
      matchesPattern .windows name pattern :=
  scan_lower name pattern 0 0

/-- Where case does not matter, a name matches a pattern exactly if it does so in lower case where
case matters. So no other case of a letter, in the name or anywhere in the pattern, changes
anything. -/
theorem matchesPattern_recased (name pattern : Bytes) :
    matchesPattern .windows name pattern =
      matchesPattern .posix (Bytes.lower name) (Bytes.lower pattern) ∧
    ∀ name' pattern', Bytes.Recased name name' → Bytes.Recased pattern pattern' →
      matchesPattern .windows name' pattern' = matchesPattern .windows name pattern := by
  refine ⟨(matchesPattern_lower name pattern).symm, ?_⟩
  intro name' pattern' hname hpattern
  rw [← matchesPattern_lower name', ← matchesPattern_lower name, Bytes.lower_eq_iff.2 hname,
    Bytes.lower_eq_iff.2 hpattern]

def mixedName : Bytes := Bytes.ofAscii "Ab[X]"
def mixedPattern : Bytes := Bytes.ofAscii "[!BZ]?[[x]*]"

/-- Letters in a class that is negated, and in one that is not. -/
theorem matchesPattern_recased_classes :
    Bytes.Recased mixedName (Bytes.ofAscii "aB[x]") ∧
    Bytes.Recased mixedPattern (Bytes.ofAscii "[!bz]?[[X]*]") ∧
    matchesPattern .posix (Bytes.ofAscii "ab[x]") (Bytes.ofAscii "[!bz]?[[x]*]") = true ∧
    matchesPattern .windows mixedName mixedPattern = true ∧
    matchesPattern .windows (Bytes.ofAscii "aB[x]") (Bytes.ofAscii "[!bz]?[[X]*]") = true := by
  have hname : Bytes.Recased mixedName (Bytes.ofAscii "aB[x]") :=
    Bytes.lower_eq_iff.1 (by decide)
  have hpattern : Bytes.Recased mixedPattern (Bytes.ofAscii "[!bz]?[[X]*]") :=
    Bytes.lower_eq_iff.1 (by decide)
  have hlower : matchesPattern .posix (Bytes.ofAscii "ab[x]") (Bytes.ofAscii "[!bz]?[[x]*]") =
      true := by decide +kernel
  obtain ⟨hfolded, hsame⟩ := matchesPattern_recased mixedName mixedPattern
  have hmatch := hfolded.trans hlower
  exact ⟨hname, hpattern, hlower, hmatch, (hsame _ _ hname hpattern).trans hmatch⟩

end BuildScript.Glob
