import BuildScript.Proofs.Path.Split
import BuildScript.Script.Environment

/-!
# Files that a module could be in

The templates for the files of modules stand in one text. The name of a module is put in place of
every mark in the text, and only then the text is cut at the separators. So the directory of a
script, which is a part of the text like any other, stands for itself as long as it has neither
marks nor separators in it.

* `Library.replace_singleton`: single bytes are replaced one by one;
* `Library.splitOnP_replace`: what stands in front of a separator is one file;
* `Library.ModuleName`: a name of letters, digits and underscores has nothing in it that is taken
  for something else;
* `Library.candidates_searchDir`: the files in a directory, in front of those in other places;
* `Library.untilNul_searchDir`: the templates are cut at a NUL behind the directory.
-/

namespace BuildScript

theorem Path.Style.mem_join {style : Style} {base component : Bytes}
    (h : style.isAbsolute component = false) {b : UInt8} :
    b ∈ style.join base component ↔
      b ∈ base ∨ (style.needsSep base = true ∧ b = style.separator) ∨ b ∈ component := by
  rw [join_of_not_isAbsolute h]
  cases style.needsSep base <;> simp

namespace Script

open BuildScript.Path

namespace Library

/-! ## Templates -/

theorem replaceAll_singleton (mark : UInt8) (new : Bytes) {fuel : Nat} {bs : Bytes}
    (h : bs.length ≤ fuel) :
    replaceAll [mark] new fuel bs = bs.flatMap fun b => if b = mark then new else [b] := by
  induction bs generalizing fuel with
  | nil => cases fuel <;> rfl
  | cons b bs ih =>
    obtain ⟨fuel, rfl⟩ : ∃ n, fuel = n + 1 := ⟨fuel - 1, by simp at h; omega⟩
    have hrest := ih (Nat.le_of_succ_le_succ h)
    by_cases hb : b = mark
    · simp [replaceAll, Bytes.after?, hb, hrest]
    · simp [replaceAll, Bytes.after?, hb, Ne.symm hb, hrest]

theorem replace_singleton (mark : UInt8) (new bs : Bytes) :
    replace [mark] new bs = bs.flatMap fun b => if b = mark then new else [b] :=
  replaceAll_singleton mark new (Nat.le_refl _)

theorem replace_cons_self (mark : UInt8) (new bs : Bytes) :
    replace [mark] new (mark :: bs) = new ++ replace [mark] new bs := by
  rw [replace_singleton, replace_singleton, List.flatMap_cons, if_pos rfl]

theorem replace_append (mark : UInt8) (new bs more : Bytes) :
    replace [mark] new (bs ++ more) = replace [mark] new bs ++ replace [mark] new more := by
  simp only [replace_singleton, List.flatMap_append]

theorem replace_of_not_mem {mark : UInt8} {bs : Bytes} (h : mark ∉ bs) (new : Bytes) :
    replace [mark] new bs = bs := by
  rw [replace_singleton]
  induction bs with
  | nil => rfl
  | cons b bs ih =>
    simp only [List.mem_cons, not_or] at h
    rw [List.flatMap_cons, if_neg (Ne.symm h.1), ih h.2]
    rfl

theorem templateMark_eq : templateMark = [0x3F] := rfl

/-- What stands in front of a separator is one file. -/
theorem splitOnP_replace {name template : Bytes}
    (h : templateSeparator ∉ replace templateMark name template) (more : Bytes) :
    (replace templateMark name (template ++ templateSeparator :: more)).splitOnP
        (· == templateSeparator) =
      replace templateMark name template ::
        (replace templateMark name more).splitOnP (· == templateSeparator) := by
  have hmore : replace templateMark name (templateSeparator :: more) =
      templateSeparator :: replace templateMark name more := by
    rw [templateMark_eq, replace_singleton, replace_singleton, List.flatMap_cons]
    rfl
  rw [templateMark_eq, replace_append, ← templateMark_eq, hmore]
  exact List.splitOnP_append_cons_of_forall_mem
    (fun b hb => beq_false_of_ne (ne_of_mem_of_not_mem hb h)) templateSeparator rfl _

theorem candidates_of_ne_nil {path name : Bytes} (h : replace templateMark name path ≠ []) :
    candidates path name =
      (replace templateMark name path).splitOnP (· == templateSeparator) := by
  rw [candidates]
  split
  · contradiction
  · rfl

/-! ## Names -/

/-- A byte of a name is neither an end nor a dot, and nothing in a path or in templates. -/
theorem isNameByte_spec {b : UInt8} (h : isNameByte b = true) :
    b ≠ 0 ∧ b ≠ 0x2E ∧ b ≠ Style.slash ∧ b ≠ templateSeparator := by
  refine ⟨?_, ?_, ?_, ?_⟩
  all_goals
    rintro rfl
    exact absurd h (by decide)

/-- What a module is called by: letters, digits and underscores. -/
structure ModuleName (name : Bytes) : Prop where
  ne_nil : name ≠ []
  bytes : ∀ b ∈ name, isNameByte b = true

namespace ModuleName

variable {name : Bytes} (h : ModuleName name)
include h

theorem untilNul : name.untilNul = name :=
  List.takeWhile_eq_self_iff.2 fun b hb => bne_iff_ne.2 (isNameByte_spec (h.bytes b hb)).1

/-- Without a dot there is nothing to be replaced. -/
theorem moduleFile : moduleFile name (Bytes.ofAscii ".") [Style.slash] = name := by
  have hdot : name.contains 0x2E = false := by
    rw [← Bool.not_eq_true, List.contains_iff_mem]
    exact fun hmem => (isNameByte_spec (h.bytes _ hmem)).2.1 rfl
  have hseparator : Bytes.ofAscii "." = [0x2E] := rfl
  rw [hseparator, Library.moduleFile, hdot, if_neg Bool.false_ne_true]

theorem isAbsolute (more : Bytes) : Style.posix.isAbsolute (name ++ more) = false := by
  obtain ⟨b, rest, rfl⟩ := List.exists_cons_of_ne_nil h.ne_nil
  have hslash := (isNameByte_spec (h.bytes b List.mem_cons_self)).2.2.1
  simpa [Style.isAbsolute, Style.isSep] using hslash

end ModuleName

/-! ## Directories -/

/-- A name of a directory that is not taken for templates. -/
def Untemplated (dir : Bytes) : Prop := ∀ b ∈ dir, b ≠ 0x3F ∧ b ≠ templateSeparator

instance (dir : Bytes) : Decidable (Untemplated dir) :=
  List.decidableBAll _ dir

section
variable {dir name : Bytes} (hdir : Untemplated dir) (hname : ModuleName name)
include hdir hname

/-- A template in a directory, with a name in it. -/
theorem replace_join {tail : Bytes} (htail : 0x3F ∉ tail) :
    replace templateMark name (Style.posix.join dir (0x3F :: tail)) =
      Style.posix.join dir (name ++ tail) := by
  have hmark : (0x3F : UInt8) ∉ dir := fun hmem => (hdir _ hmem).1 rfl
  have hgap : (0x3F : UInt8) ∉
      if Style.posix.needsSep dir then [Style.posix.separator] else [] := by
    split <;> decide
  rw [Style.join_of_not_isAbsolute rfl, Style.join_of_not_isAbsolute (hname.isAbsolute tail),
    templateMark_eq, replace_append, replace_append, replace_of_not_mem hmark,
    replace_of_not_mem hgap, replace_cons_self, replace_of_not_mem htail]

theorem separator_not_mem_join {tail : Bytes} (htail : templateSeparator ∉ tail) :
    templateSeparator ∉ Style.posix.join dir (name ++ tail) := by
  rw [Style.mem_join (hname.isAbsolute tail), List.mem_append]
  rintro (hmem | ⟨-, hslash⟩ | hmem | hmem)
  · exact (hdir _ hmem).2 rfl
  · exact absurd hslash (by decide)
  · exact (isNameByte_spec (hname.bytes _ hmem)).2.2.2 rfl
  · exact htail hmem

/-- The files in a directory, and then those in other places. -/
theorem candidates_searchDir (others : Bytes) :
    candidates (Environment.searchDir .posix dir others) name =
      Style.posix.join dir (name ++ Bytes.ofAscii ".lua") ::
      Style.posix.join dir (name ++ Bytes.ofAscii "/init.lua") ::
        (replace templateMark name others).splitOnP (· == templateSeparator) := by
  have hmarks : (0x3F : UInt8) ∉ Bytes.ofAscii ".lua" ∧
      (0x3F : UInt8) ∉ Bytes.ofAscii "/init.lua" := by decide
  have hseparators : templateSeparator ∉ Bytes.ofAscii ".lua" ∧
      templateSeparator ∉ Bytes.ofAscii "/init.lua" := by decide
  have hplain := replace_join hdir hname hmarks.1
  have hinit := replace_join hdir hname hmarks.2
  let plain := Style.posix.join dir (0x3F :: Bytes.ofAscii ".lua")
  let init := Style.posix.join dir (0x3F :: Bytes.ofAscii "/init.lua")
  have hdirs : Environment.searchDir .posix dir others =
      plain ++ templateSeparator :: (init ++ templateSeparator :: others) := by
    simp only [Environment.searchDir, Environment.templates, List.flatMap_cons, List.flatMap_nil,
      List.append_nil, List.append_assoc]
    rfl
  have hfirst := @splitOnP_replace name plain
    (by rw [hplain]; exact separator_not_mem_join hdir hname hseparators.1)
    (init ++ templateSeparator :: others)
  have hsecond := @splitOnP_replace name init
    (by rw [hinit]; exact separator_not_mem_join hdir hname hseparators.2) others
  have hsome : replace templateMark name (plain ++ templateSeparator ::
      (init ++ templateSeparator :: others)) ≠ [] := by
    intro hnil
    rw [hnil, List.splitOnP_nil] at hfirst
    exact List.splitOnP_ne_nil _ _ (List.cons.inj hfirst).2.symm
  rw [hdirs, candidates_of_ne_nil hsome, hfirst, hsecond, hplain, hinit]

end

/-- A directory without a NUL stays in front of what is cut at the first one. -/
theorem untilNul_searchDir {dir : Bytes} (h : (0 : UInt8) ∉ dir) (others : Bytes) :
    (Environment.searchDir .posix dir others).untilNul =
      Environment.searchDir .posix dir others.untilNul := by
  refine List.takeWhile_append_of_pos fun b hb => bne_iff_ne.2 ?_
  rintro rfl
  obtain ⟨t, ht, hmem⟩ := List.mem_flatMap.1 hb
  have htemplates : ∀ t ∈ Environment.templates, Style.posix.isAbsolute (Bytes.ofAscii t) = false ∧
      (0 : UInt8) ∉ Bytes.ofAscii t := by decide
  obtain ⟨hrelative, hnul⟩ := htemplates t ht
  rw [List.mem_append, Style.mem_join hrelative] at hmem
  rcases hmem with (hmem | ⟨-, hslash⟩ | hmem) | hmem
  · exact h hmem
  · exact absurd hslash (by decide)
  · exact hnul hmem
  · exact absurd hmem (by decide)

end Library

end Script

end BuildScript
