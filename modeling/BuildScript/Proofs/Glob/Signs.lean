import BuildScript.Proofs.Glob.Ordered
import Mathlib.Data.List.Permutation

/-!
# Signs of patterns behind a directory

The sign of a pattern is taken off, what is left is put behind the directory, and the sign comes
in front of both. Whoever applies the result takes the first byte for the sign. That is the sign
of the pattern, unless the pattern has none and the name of the directory begins with a `!`.

* `Acts`: a pattern puts what another one finds into sets, or takes it out of them;
* `acts_of_read`: a pattern does so with what stands behind its sign;
* `head?_join`: the first byte of a pattern behind a directory;
* `rebase_acts`: what a pattern does behind a directory;
* `rebase_takes_out`: in a directory whose name begins with a `!` it is the contrary of its sign.
-/

namespace BuildScript.Glob

open BuildScript.Path Files

/-! ## Applying patterns -/

/-- Applying one pattern puts what another one finds into every set, or takes it out, and leaves
all other paths as they were. Where the walk of the other one has no result, there is no set. -/
def Acts (list : Listing) (style : Style) (pattern : Bytes) (exclude : Bool) (plain : Bytes) :
    Prop :=
  ∀ budget (set : MatchSet),
    match collect list style budget plain with
    | none => set.apply list style budget pattern = none
    | some found => ∃ after dirs, set.apply list style budget pattern = some (after, dirs) ∧
        ∀ path, path ∈ after.paths ↔
          if exclude then path ∈ set.paths ∧ path ∉ found else path ∈ set.paths ∨ path ∈ found

theorem acts_of_read {pattern plain : Bytes} {exclude : Bool} (list : Listing) (style : Style)
    (h : Signed.read pattern = ⟨exclude, plain⟩) : Acts list style pattern exclude plain := by
  intro budget set
  rw [collect, MatchSet.apply, h]
  cases walk list style budget plain with
  | none => rfl
  | some events =>
    refine ⟨_, _, rfl, fun path => ?_⟩
    rw [MatchSet.applyEvents_eq_applyPaths, MatchSet.mem_applyPaths]
    by_cases hfound : path ∈ foundPaths events
    · cases exclude <;> simp [hfound]
    · cases exclude <;> simp [hfound]

/-! ## Behind a directory -/

variable {style : Style} {dir pattern : Bytes}

theorem rebase_of_sign (style : Style) (dir rest : Bytes) :
    rebase style dir (bang :: rest) = bang :: style.join dir rest := rfl

theorem rebase_of_plain (h : pattern.head? ≠ some bang) :
    rebase style dir pattern = style.join dir pattern := by
  rw [rebase, Signed.read_plain h]
  rfl

theorem Signed.read_bang (rest : Bytes) : Signed.read (bang :: rest) = ⟨true, rest⟩ := rfl

/-- What is put behind a directory shows its first byte only if nothing of the directory is left. -/
theorem head?_join (style : Style) (dir pattern : Bytes) :
    (style.join dir pattern).head? =
      if style.isAbsolute pattern = true ∨ dir = [] then pattern.head? else dir.head? := by
  rw [Style.join]
  by_cases habs : style.isAbsolute pattern = true
  · rw [if_pos habs, if_pos (.inl habs)]
  · rw [if_neg habs]
    cases dir with
    | nil => simp [Style.needsSep]
    | cons b dir =>
      have hbehind : ¬ (style.isAbsolute pattern = true ∨ b :: dir = []) := by simpa using habs
      rw [if_neg hbehind]
      split <;> rfl

/-- What a pattern does behind a directory. One with a sign takes out what is found behind the
directory without it. One without a sign puts in what it finds there, if it is absolute or the name
of the directory does not begin with a `!`; otherwise that `!` is taken for its sign. -/
theorem rebase_acts (list : Listing) (style : Style) (dir : Bytes) :
    (∀ pattern, Acts list style (rebase style dir (bang :: pattern)) true
      (style.join dir pattern)) ∧
    (∀ pattern, pattern.head? ≠ some bang →
      (style.isAbsolute pattern = true ∨ dir.head? ≠ some bang) →
      Acts list style (rebase style dir pattern) false (style.join dir pattern)) ∧
    ∀ pattern rest, pattern.head? ≠ some bang → style.isAbsolute pattern = false →
      dir = bang :: rest → ∃ behind, style.join dir pattern = bang :: behind ∧
        Acts list style (rebase style dir pattern) true behind := by
  refine ⟨fun pattern => ?_, fun pattern hplain hdir => ?_, ?_⟩
  · rw [rebase_of_sign]
    exact acts_of_read list style (Signed.read_bang _)
  · rw [rebase_of_plain hplain]
    refine acts_of_read list style (Signed.read_plain ?_)
    rw [head?_join]
    split
    · exact hplain
    · rename_i hbehind
      exact hdir.resolve_left fun habs => hbehind (.inl habs)
  · rintro pattern rest hplain habs rfl
    have hhead : (style.join (bang :: rest) pattern).head? = some bang := by
      rw [head?_join, if_neg (by simp [habs])]
      rfl
    obtain ⟨behind, hbehind⟩ := List.head?_eq_some_iff.1 hhead
    refine ⟨behind, hbehind, ?_⟩
    rw [rebase_of_plain hplain, hbehind]
    exact acts_of_read list style (Signed.read_bang _)

/-- A file in a directory whose name begins with a `!`. -/
def bangTree : FileSystem :=
  ⟨.dir [(Bytes.ofAscii "!d", .dir [(Bytes.ofAscii "a.c", .file [])])], []⟩

def bangDir : Bytes := Bytes.ofAscii "!d"

/-- The pattern of such files. -/
def sources : Bytes := Bytes.ofAscii "*.c"

theorem bangTree_collect :
    collect bangTree.list .posix 0 (Bytes.ofAscii "!d/*.c") = some [Bytes.ofAscii "!d/a.c"] ∧
      collect bangTree.list .posix 0 (Bytes.ofAscii "d/*.c") = some [] := by
  constructor
  · cbv
  · cbv

/-- With a sign the pattern takes the file out. Without one it takes out what it finds in `d`, where
there is nothing. -/
theorem rebase_acts_bangDir :
    Acts bangTree.list .posix (rebase .posix bangDir (bang :: sources)) true
      (Bytes.ofAscii "!d/*.c") ∧
    (sources.head? ≠ some bang ∧ (Bytes.ofAscii "d").head? ≠ some bang ∧
      Acts bangTree.list .posix (rebase .posix (Bytes.ofAscii "d") sources) false
        (Bytes.ofAscii "d/*.c")) ∧
    Style.posix.isAbsolute sources = false ∧
    (∃ behind, Style.posix.join bangDir sources = bang :: behind ∧
      behind = Bytes.ofAscii "d/*.c" ∧
      Acts bangTree.list .posix (rebase .posix bangDir sources) true behind) ∧
    collect bangTree.list .posix 0 (Bytes.ofAscii "!d/*.c") = some [Bytes.ofAscii "!d/a.c"] ∧
    collect bangTree.list .posix 0 (Bytes.ofAscii "d/*.c") = some [] := by
  have hplain : sources.head? ≠ some bang := by decide
  have hname : (Bytes.ofAscii "d").head? ≠ some bang := by decide
  have habs : Style.posix.isAbsolute sources = false := rfl
  have hjoin : Style.posix.join bangDir sources = Bytes.ofAscii "!d/*.c" := rfl
  have hother : Style.posix.join (Bytes.ofAscii "d") sources = Bytes.ofAscii "d/*.c" := rfl
  obtain ⟨hsign, -, htaken⟩ := rebase_acts bangTree.list .posix bangDir
  obtain ⟨-, hput, -⟩ := rebase_acts bangTree.list .posix (Bytes.ofAscii "d")
  obtain ⟨behind, hbehind, hacts⟩ :=
    htaken sources (Bytes.ofAscii "d") hplain habs rfl
  have hrest : behind = Bytes.ofAscii "d/*.c" := by
    have hcons : Bytes.ofAscii "!d/*.c" = bang :: Bytes.ofAscii "d/*.c" := rfl
    exact (List.cons.inj (hbehind.symm.trans (hjoin.trans hcons))).2
  exact ⟨hjoin ▸ hsign sources, ⟨hplain, hname, hother ▸ hput sources hplain (.inr hname)⟩, habs,
    ⟨behind, hbehind, hrest, hacts⟩, bangTree_collect⟩

/-- In a directory whose name begins with a `!` a pattern does not put in what it finds there. -/
theorem rebase_takes_out :
    ¬ ∀ pattern : Bytes, pattern.head? ≠ some bang →
      Acts bangTree.list .posix (rebase .posix bangDir pattern) false
        (Style.posix.join bangDir pattern) := by
  intro h
  have hjoin : Style.posix.join bangDir sources = Bytes.ofAscii "!d/*.c" := rfl
  have hread : Signed.read (rebase .posix bangDir sources) = ⟨true, Bytes.ofAscii "d/*.c"⟩ := rfl
  have hput := h sources (by decide) 0 MatchSet.empty
  have htaken := acts_of_read bangTree.list .posix hread 0 MatchSet.empty
  obtain ⟨hfile, hnothing⟩ := bangTree_collect
  rw [hjoin, hfile] at hput
  rw [hnothing] at htaken
  obtain ⟨after, dirs, hafter, hin⟩ := hput
  obtain ⟨after', dirs', hafter', hout⟩ := htaken
  -- both describe the one set that there is
  rw [hafter] at hafter'
  obtain ⟨rfl, -⟩ := Prod.mk.inj (Option.some.inj hafter')
  have hmem : Bytes.ofAscii "!d/a.c" ∈ after.paths := (hin _).2 (by simp)
  have hnone := (hout _).1 hmem
  simp [MatchSet.empty] at hnone

end BuildScript.Glob
