import BuildScript.Glob.Pattern
import Mathlib.Data.List.Infix

/-!
# What patterns for one segment mean

A pattern is read from left to right as a list of pieces (`Reads`), and a name is spelled by
pieces when it is made of one part for each of them (`Spells`). Both are relations that know
nothing of cursors, nor of the order in which the ends of a name are tried behind a `*`.

* `parseClass_listed`, `parseClass_negated`, `parseClass_eq_none`: what a class is taken for;
* `Reads.of_append`, `Reads.unique`: a pattern has one reading, which begins with that of its
  front;
* `scan_iff`: what the two cursors find, wherever they stand;
* `matchesPattern_iff_spells`: a name matches exactly if it is spelled by a reading of the
  pattern. A class without its end leaves a pattern without a reading, `[]` takes nothing and
  `[!]` takes any one byte.
-/

namespace BuildScript.Glob

open BuildScript.Path

variable {style : Style}

/-! ## Readings -/

/-- One piece of a pattern. -/
inductive Token where
  /-- `?`: any one byte. -/
  | any
  /-- `*`: any bytes, or none. -/
  | many
  /-- `[...]` or `[!...]`: one byte that is, or is not, among the members. -/
  | oneOf (negated : Bool) (members : Bytes)
  /-- A byte that stands for itself. -/
  | byte (b : UInt8)

/-- The pieces of a pattern, read from left to right. The members of a class go up to the
first `]` behind its `[` and an optional `!`. -/
inductive Reads : Bytes → List Token → Prop
  | nil : Reads [] []
  | any {p : Bytes} {ts : List Token} : Reads p ts → Reads (question :: p) (.any :: ts)
  | many {p : Bytes} {ts : List Token} : Reads p ts → Reads (star :: p) (.many :: ts)
  | among {members p : Bytes} {ts : List Token} : closeBracket ∉ members →
      members.head? ≠ some bang → Reads p ts →
      Reads (openBracket :: (members ++ closeBracket :: p)) (.oneOf false members :: ts)
  | notAmong {members p : Bytes} {ts : List Token} : closeBracket ∉ members → Reads p ts →
      Reads (openBracket :: bang :: (members ++ closeBracket :: p)) (.oneOf true members :: ts)
  | byte {b : UInt8} {p : Bytes} {ts : List Token} : isWildcard b = false → Reads p ts →
      Reads (b :: p) (.byte b :: ts)

theorem reads_nil_iff {ts : List Token} : Reads [] ts ↔ ts = [] := by
  constructor
  · intro h
    cases h
    rfl
  · rintro rfl
    exact .nil

/-- How the reading of a pattern begins, by its first byte. -/
theorem reads_cons_iff {b : UInt8} {p : Bytes} {ts : List Token} :
    Reads (b :: p) ts ↔
      (b = question ∧ ∃ us, Reads p us ∧ .any :: us = ts) ∨
      (b = star ∧ ∃ us, Reads p us ∧ .many :: us = ts) ∨
      (b = openBracket ∧ ∃ members rest us, closeBracket ∉ members ∧ Reads rest us ∧
        (members.head? ≠ some bang ∧ p = members ++ closeBracket :: rest ∧
            .oneOf false members :: us = ts ∨
          p = bang :: (members ++ closeBracket :: rest) ∧ .oneOf true members :: us = ts)) ∨
      (isWildcard b = false ∧ ∃ us, Reads p us ∧ .byte b :: us = ts) := by
  constructor
  · intro h
    cases h with
    | any h => exact .inl ⟨rfl, _, h, rfl⟩
    | many h => exact .inr (.inl ⟨rfl, _, h, rfl⟩)
    | among hnot hhead h =>
      exact .inr (.inr (.inl ⟨rfl, _, _, _, hnot, h, .inl ⟨hhead, rfl, rfl⟩⟩))
    | notAmong hnot h => exact .inr (.inr (.inl ⟨rfl, _, _, _, hnot, h, .inr ⟨rfl, rfl⟩⟩))
    | byte hw h => exact .inr (.inr (.inr ⟨hw, _, h, rfl⟩))
  · rintro (⟨rfl, us, h, rfl⟩ | ⟨rfl, us, h, rfl⟩ |
      ⟨rfl, members, rest, us, hnot, h, ⟨hhead, rfl, rfl⟩ | ⟨rfl, rfl⟩⟩ | ⟨hw, us, h, rfl⟩)
    · exact .any h
    · exact .many h
    · exact .among hnot hhead h
    · exact .notAmong hnot h
    · exact .byte hw h

theorem reads_question_iff {p : Bytes} {ts : List Token} :
    Reads (question :: p) ts ↔ ∃ us, Reads p us ∧ .any :: us = ts := by
  rw [reads_cons_iff]
  simp [show question ≠ star by decide, show question ≠ openBracket by decide,
    show isWildcard question = true by decide]

theorem reads_star_iff {p : Bytes} {ts : List Token} :
    Reads (star :: p) ts ↔ ∃ us, Reads p us ∧ .many :: us = ts := by
  rw [reads_cons_iff]
  simp [show star ≠ question by decide, show star ≠ openBracket by decide,
    show isWildcard star = true by decide]

theorem reads_byte_iff {b : UInt8} {p : Bytes} {ts : List Token} (hw : isWildcard b = false) :
    Reads (b :: p) ts ↔ ∃ us, Reads p us ∧ .byte b :: us = ts := by
  obtain ⟨⟨hq, hs⟩, ho⟩ := by simpa [isWildcard] using hw
  rw [reads_cons_iff]
  simp [hq, hs, ho, hw]

/-! ## Classes -/

/-- Behind a `[` there is no end of a class, or there are its members and its end, with or without
a `!` in front of them. -/
theorem class_cases (body : Bytes) :
    closeBracket ∉ body ∨
    (∃ members rest, closeBracket ∉ members ∧ members.head? ≠ some bang ∧
      body = members ++ closeBracket :: rest) ∨
    (∃ members rest, closeBracket ∉ members ∧
      body = bang :: (members ++ closeBracket :: rest)) := by
  by_cases hmem : closeBracket ∈ body
  · obtain ⟨members, rest, rfl, hnot⟩ := List.eq_append_cons_of_mem hmem
    by_cases hbang : members.head? = some bang
    · obtain ⟨more, rfl⟩ := List.head?_eq_some_iff.1 hbang
      exact .inr (.inr ⟨more, rest, fun h => hnot (List.mem_cons_of_mem _ h), rfl⟩)
    · exact .inr (.inl ⟨members, rest, hnot, hbang, rfl⟩)
  · exact .inl hmem

theorem findIdx?_closeBracket {members rest : Bytes} (hnot : closeBracket ∉ members) :
    (members ++ closeBracket :: rest).findIdx? (· == closeBracket) = some members.length := by
  have hnone : members.findIdx? (· == closeBracket) = none := by
    rw [List.findIdx?_eq_none_iff]
    intro b hb
    exact beq_false_of_ne fun h => hnot (h ▸ hb)
  rw [List.findIdx?_append, hnone]
  simp [List.findIdx?_cons]

theorem parseClass_listed {members : Bytes} (rest : Bytes) (hnot : closeBracket ∉ members)
    (hhead : members.head? ≠ some bang) :
    parseClass (members ++ closeBracket :: rest) = some ⟨members, false, members.length + 1⟩ := by
  have hnegated : ((members ++ closeBracket :: rest).head? == some bang) = false := by
    cases members with
    | nil => rfl
    | cons m members => simpa using hhead
  simp only [parseClass, hnegated, Bool.toNat_false, List.drop_zero, findIdx?_closeBracket hnot]
  simp

theorem parseClass_negated {members : Bytes} (rest : Bytes) (hnot : closeBracket ∉ members) :
    parseClass (bang :: (members ++ closeBracket :: rest)) =
      some ⟨members, true, members.length + 2⟩ := by
  simp [parseClass, findIdx?_closeBracket hnot]

theorem parseClass_eq_none {body : Bytes} (hnot : closeBracket ∉ body) :
    parseClass body = none := by
  have hnone : (body.drop (body.head? == some bang).toNat).findIdx? (· == closeBracket) = none := by
    rw [List.findIdx?_eq_none_iff]
    intro b hb
    exact beq_false_of_ne fun h => hnot (h ▸ List.mem_of_mem_drop hb)
  simp [parseClass, hnone]

/-- A class is read as its members, and the reading goes on behind its `]`. -/
theorem reads_openBracket_iff {body : Bytes} {ts : List Token} :
    Reads (openBracket :: body) ts ↔
      ∃ cls, parseClass body = some cls ∧
        ∃ us, Reads (body.drop cls.offset) us ∧ .oneOf cls.negated cls.members :: us = ts := by
  have hclass : Reads (openBracket :: body) ts ↔
      ∃ members rest us, closeBracket ∉ members ∧ Reads rest us ∧
        (members.head? ≠ some bang ∧ body = members ++ closeBracket :: rest ∧
            .oneOf false members :: us = ts ∨
          body = bang :: (members ++ closeBracket :: rest) ∧ .oneOf true members :: us = ts) := by
    rw [reads_cons_iff]
    simp [show openBracket ≠ question by decide, show openBracket ≠ star by decide,
      show isWildcard openBracket = true by decide]
  rw [hclass]
  constructor
  · rintro ⟨members, rest, us, hnot, hus, ⟨hhead, rfl, rfl⟩ | ⟨rfl, rfl⟩⟩
    · exact ⟨_, parseClass_listed rest hnot hhead, us, by simpa using hus, rfl⟩
    · exact ⟨_, parseClass_negated rest hnot, us, by simpa using hus, rfl⟩
  · rintro ⟨cls, hcls, us, hus, hts⟩
    rcases class_cases body with hnot | ⟨members, rest, hnot, hhead, rfl⟩ |
      ⟨members, rest, hnot, rfl⟩
    · rw [parseClass_eq_none hnot] at hcls
      cases hcls
    · obtain rfl := Option.some.inj ((parseClass_listed rest hnot hhead).symm.trans hcls)
      exact ⟨members, rest, us, hnot, by simpa using hus, .inl ⟨hhead, rfl, hts⟩⟩
    · obtain rfl := Option.some.inj ((parseClass_negated rest hnot).symm.trans hcls)
      exact ⟨members, rest, us, hnot, by simpa using hus, .inr ⟨rfl, hts⟩⟩

theorem reads_class_iff {body : Bytes} {cls : CharClass} (h : parseClass body = some cls)
    {ts : List Token} :
    Reads (openBracket :: body) ts ↔
      ∃ us, Reads (body.drop cls.offset) us ∧ .oneOf cls.negated cls.members :: us = ts := by
  simp only [reads_openBracket_iff, h, Option.some.injEq, exists_eq_left']

/-- The reading of a pattern begins with that of its front. -/
theorem Reads.of_append {p q : Bytes} {ts us : List Token} (hp : Reads p ts)
    (h : Reads (p ++ q) us) : ∃ vs, Reads q vs ∧ ts ++ vs = us := by
  induction hp generalizing us with
  | nil => exact ⟨us, h, rfl⟩
  | any _ ih =>
    obtain ⟨us, hus, rfl⟩ := reads_question_iff.1 h
    obtain ⟨vs, hvs, rfl⟩ := ih hus
    exact ⟨vs, hvs, rfl⟩
  | many _ ih =>
    obtain ⟨us, hus, rfl⟩ := reads_star_iff.1 h
    obtain ⟨vs, hvs, rfl⟩ := ih hus
    exact ⟨vs, hvs, rfl⟩
  | @among members p ts hnot hhead _ ih =>
    rw [List.cons_append, List.append_assoc, List.cons_append, reads_openBracket_iff,
      parseClass_listed (p ++ q) hnot hhead] at h
    obtain ⟨cls, hcls, us, hus, rfl⟩ := h
    obtain rfl := Option.some.inj hcls
    obtain ⟨vs, hvs, rfl⟩ := ih (by simpa using hus)
    exact ⟨vs, hvs, rfl⟩
  | @notAmong members p ts hnot _ ih =>
    rw [List.cons_append, List.cons_append, List.append_assoc, List.cons_append,
      reads_openBracket_iff, parseClass_negated (p ++ q) hnot] at h
    obtain ⟨cls, hcls, us, hus, rfl⟩ := h
    obtain rfl := Option.some.inj hcls
    obtain ⟨vs, hvs, rfl⟩ := ih (by simpa using hus)
    exact ⟨vs, hvs, rfl⟩
  | byte hw _ ih =>
    obtain ⟨us, hus, rfl⟩ := (reads_byte_iff hw).1 h
    obtain ⟨vs, hvs, rfl⟩ := ih hus
    exact ⟨vs, hvs, rfl⟩

theorem Reads.unique {pattern : Bytes} {ts us : List Token} (h : Reads pattern ts)
    (h' : Reads pattern us) : ts = us := by
  rw [← List.append_nil pattern] at h'
  obtain ⟨vs, hvs, rfl⟩ := h.of_append h'
  rw [reads_nil_iff.1 hvs, List.append_nil]

/-- A class without its `]` leaves the pattern around it without a reading. -/
theorem not_reads_of_unclosed {p body : Bytes} {ts us : List Token} (hp : Reads p ts)
    (hbody : closeBracket ∉ body) : ¬ Reads (p ++ openBracket :: body) us := by
  intro h
  obtain ⟨vs, hvs, -⟩ := hp.of_append h
  obtain ⟨cls, hcls, -⟩ := reads_openBracket_iff.1 hvs
  rw [parseClass_eq_none hbody] at hcls
  cases hcls

/-! ## Spelling -/

/-- The bytes that one piece can take of a name. A class takes a byte that is among its members
up to case, or one that is not if it is negated. -/
inductive Takes (style : Style) : Token → Bytes → Prop
  | any (c : UInt8) : Takes style .any [c]
  | many (bs : Bytes) : Takes style .many bs
  | oneOf {negated : Bool} {members : Bytes} {c : UInt8} :
      ((∃ m ∈ members, style.eqByte c m = true) ↔ negated = false) →
      Takes style (.oneOf negated members) [c]
  | byte {b c : UInt8} : style.eqByte c b = true → Takes style (.byte b) [c]

/-- A name made of one part for each piece. -/
inductive Spells (style : Style) : List Token → Bytes → Prop
  | nil : Spells style [] []
  | cons {t : Token} {ts : List Token} {part rest : Bytes} : Takes style t part →
      Spells style ts rest → Spells style (t :: ts) (part ++ rest)

/-- Whether a piece that takes exactly one byte takes this one. -/
def Token.takes (style : Style) : Token → UInt8 → Bool
  | any, _ => true
  | many, _ => false
  | oneOf negated members, c => members.any (style.eqByte c) != negated
  | byte b, c => style.eqByte c b

theorem takes_oneOf_iff {negated : Bool} {members : Bytes} {c : UInt8} :
    Takes style (.oneOf negated members) [c] ↔
      (Token.oneOf negated members).takes style c = true := by
  have hany : members.any (style.eqByte c) = true ↔ ∃ m ∈ members, style.eqByte c m = true :=
    List.any_eq_true
  constructor
  · rintro (_ | _ | h)
    rw [← hany] at h
    cases negated <;> simpa [Token.takes] using h
  · intro h
    refine .oneOf ?_
    rw [← hany]
    cases negated <;> simpa [Token.takes] using h

/-- A piece other than `*` takes one byte, one that it is there for. -/
theorem takes_iff {t : Token} {part : Bytes} (ht : t ≠ .many) :
    Takes style t part ↔ ∃ c, part = [c] ∧ t.takes style c = true := by
  cases t with
  | any =>
    constructor
    · rintro ⟨c⟩
      exact ⟨c, rfl, rfl⟩
    · rintro ⟨c, rfl, -⟩
      exact .any c
  | many => exact absurd rfl ht
  | oneOf negated members =>
    constructor
    · intro h
      cases h with
      | @oneOf _ _ c h => exact ⟨c, rfl, takes_oneOf_iff.1 (.oneOf h)⟩
    · rintro ⟨c, rfl, h⟩
      exact takes_oneOf_iff.2 h
  | byte b =>
    constructor
    · intro h
      cases h with
      | @byte _ c h => exact ⟨c, rfl, h⟩
    · rintro ⟨c, rfl, h⟩
      exact .byte h

theorem spells_nil_iff {name : Bytes} : Spells style [] name ↔ name = [] := by
  constructor
  · intro h
    cases h
    rfl
  · rintro rfl
    exact .nil

theorem spells_cons_iff {t : Token} {ts : List Token} {name : Bytes} :
    Spells style (t :: ts) name ↔
      ∃ part rest, name = part ++ rest ∧ Takes style t part ∧ Spells style ts rest := by
  constructor
  · intro h
    cases h with
    | cons htake hs => exact ⟨_, _, rfl, htake, hs⟩
  · rintro ⟨part, rest, rfl, htake, hs⟩
    exact .cons htake hs

/-! ## The two cursors -/

/-- A name is spelled by a reading of a pattern. -/
def Fits (style : Style) (pattern name : Bytes) : Prop :=
  ∃ ts, Reads pattern ts ∧ Spells style ts name

theorem fits_nil_iff {name : Bytes} : Fits style [] name ↔ name = [] := by
  simp only [Fits, reads_nil_iff, exists_eq_left, spells_nil_iff]

/-- A `*` leaves any end of the name to what stands behind it. -/
theorem fits_star_iff {p name : Bytes} :
    Fits style (star :: p) name ↔ ∃ back, back <:+ name ∧ Fits style p back := by
  simp only [Fits, reads_star_iff]
  constructor
  · rintro ⟨_, ⟨us, hus, rfl⟩, hs⟩
    obtain ⟨part, rest, rfl, -, hs⟩ := spells_cons_iff.1 hs
    exact ⟨rest, List.suffix_append part rest, us, hus, hs⟩
  · rintro ⟨back, ⟨front, rfl⟩, us, hus, hs⟩
    exact ⟨_, ⟨us, hus, rfl⟩, .cons (.many front) hs⟩

/-- Any other piece takes the next byte of the name. -/
theorem fits_cons_iff {t : Token} (ht : t ≠ .many) {pattern p : Bytes}
    (hreads : ∀ ts, Reads pattern ts ↔ ∃ us, Reads p us ∧ t :: us = ts) {c : UInt8}
    {name : Bytes} :
    Fits style pattern (c :: name) ↔ t.takes style c = true ∧ Fits style p name := by
  simp only [Fits, hreads]
  constructor
  · rintro ⟨_, ⟨us, hus, rfl⟩, hs⟩
    obtain ⟨part, rest, hname, htake, hs⟩ := spells_cons_iff.1 hs
    obtain ⟨d, rfl, hd⟩ := (takes_iff ht).1 htake
    obtain ⟨rfl, rfl⟩ := List.cons.inj hname
    exact ⟨hd, us, hus, hs⟩
  · rintro ⟨hc, us, hus, hs⟩
    exact ⟨_, ⟨us, hus, rfl⟩, .cons ((takes_iff ht).2 ⟨c, rfl, hc⟩) hs⟩

/-- Only a `*` is content with nothing. -/
theorem eq_star_of_fits_nil {b : UInt8} {p : Bytes} (h : Fits style (b :: p) []) : b = star := by
  obtain ⟨ts, hts, hs⟩ := h
  by_contra hb
  obtain ⟨t, us, ht, rfl⟩ : ∃ t us, t ≠ .many ∧ t :: us = ts := by
    rcases reads_cons_iff.1 hts with ⟨-, us, -, hus⟩ | ⟨hstar, -⟩ |
      ⟨-, _, _, us, -, -, ⟨-, -, hus⟩ | ⟨-, hus⟩⟩ | ⟨-, us, -, hus⟩
    · exact ⟨_, us, by simp, hus⟩
    · exact absurd hstar hb
    · exact ⟨_, us, by simp, hus⟩
    · exact ⟨_, us, by simp, hus⟩
    · exact ⟨_, us, by simp, hus⟩
  obtain ⟨part, rest, hname, htake, -⟩ := spells_cons_iff.1 hs
  obtain ⟨c, rfl, -⟩ := (takes_iff ht).1 htake
  cases hname

theorem drop_of_getElem? {bs : Bytes} {i : Nat} {b : UInt8} (h : bs[i]? = some b) :
    bs.drop i = b :: bs.drop (i + 1) := by
  obtain ⟨hi, rfl⟩ := List.getElem?_eq_some_iff.1 h
  exact List.drop_eq_getElem_cons hi

/-- The cursors find whether what is left of the name fits what is left of the pattern. The cursor
of the name stays within it, without which the test for its end at a `?` would not be enough. -/
theorem scan_iff {name pattern : Bytes} {i j : Nat} (hi : i ≤ name.length) :
    scan style name pattern i j = true ↔ Fits style (pattern.drop j) (name.drop i) := by
  fun_induction scan style name pattern i j with
  -- a `?`, at the end of the name and before it
  | case1 name pattern i j hj b hq hend =>
    rw [List.drop_eq_getElem_cons hj, show pattern[j] = question from eq_of_beq hq,
      eq_of_beq hend, List.drop_length]
    exact iff_of_false Bool.false_ne_true fun h => absurd (eq_star_of_fits_nil h) (by decide)
  | case2 name pattern i j hj b hq hend ih =>
    have hlt : i < name.length := by
      rw [beq_iff_eq] at hend
      omega
    rw [List.drop_eq_getElem_cons hj, show pattern[j] = question from eq_of_beq hq,
      List.drop_eq_getElem_cons hlt, fits_cons_iff (by simp) fun _ => reads_question_iff, ih hlt]
    simp [Token.takes]
  -- a `*`, as the last piece and with others behind it
  | case3 name pattern i j hj b _ hs rest hrest =>
    have hnil : pattern.drop (j + 1) = [] := List.isEmpty_iff.1 hrest
    rw [List.drop_eq_getElem_cons hj, show pattern[j] = star from eq_of_beq hs, hnil,
      fits_star_iff]
    exact iff_of_true rfl ⟨[], List.nil_suffix, fits_nil_iff.2 rfl⟩
  | case4 name pattern i j hj b _ hs rest _ ih =>
    rw [List.drop_eq_getElem_cons hj, show pattern[j] = star from eq_of_beq hs, fits_star_iff,
      List.any_eq_true]
    constructor
    · rintro ⟨k, hk, h⟩
      have hk := List.mem_range'_1.1 hk
      refine ⟨name.drop k, ?_, (ih k (Nat.zero_le _)).1 h⟩
      exact List.drop_suffix_drop_left name hk.1
    · rintro ⟨back, hback, h⟩
      obtain ⟨n, hn, rfl⟩ : ∃ n, n ≤ (name.drop i).length ∧ (name.drop i).drop n = back :=
        ⟨_, Nat.sub_le _ _, (List.suffix_iff_eq_drop.1 hback).symm⟩
      rw [List.drop_drop] at h
      rw [List.length_drop] at hn
      refine ⟨i + n, ?_, (ih (i + n) (Nat.zero_le _)).2 h⟩
      rw [List.mem_range'_1]
      omega
  -- a `[`: the name is at its end, the class has none, or it takes the byte or not
  | case5 name pattern i j hj b _ hs _ hc =>
    rw [List.drop_eq_getElem_cons hj, List.drop_eq_nil_of_le (List.getElem?_eq_none_iff.1 hc)]
    exact iff_of_false Bool.false_ne_true fun h => hs (beq_iff_eq.2 (eq_star_of_fits_nil h))
  | case6 name pattern i j hj b _ _ ho c _ hcls =>
    rw [List.drop_eq_getElem_cons hj, show pattern[j] = openBracket from eq_of_beq ho]
    refine iff_of_false Bool.false_ne_true ?_
    rintro ⟨ts, hts, -⟩
    obtain ⟨cls, hsome, -⟩ := reads_openBracket_iff.1 hts
    cases hcls.symm.trans hsome
  | case7 name pattern i j hj b _ _ ho c hc cls hcls found hfound =>
    rw [List.drop_eq_getElem_cons hj, show pattern[j] = openBracket from eq_of_beq ho,
      drop_of_getElem? hc, fits_cons_iff (by simp) fun _ => reads_class_iff hcls]
    refine iff_of_false Bool.false_ne_true fun h => ?_
    have htakes : (found != cls.negated) = true := h.1
    rw [bne, hfound] at htakes
    cases htakes
  | case8 name pattern i j hj b _ _ ho c hc cls hcls found hfound ih =>
    have hlt : i < name.length := (List.getElem?_eq_some_iff.1 hc).1
    have htakes : (found != cls.negated) = true := by simpa using hfound
    have hdrop : (pattern.drop (j + 1)).drop cls.offset = pattern.drop (j + cls.offset + 1) := by
      rw [List.drop_drop, Nat.add_right_comm]
    rw [List.drop_eq_getElem_cons hj, show pattern[j] = openBracket from eq_of_beq ho,
      drop_of_getElem? hc, fits_cons_iff (by simp) fun _ => reads_class_iff hcls, hdrop, ih hlt]
    exact (and_iff_right htakes).symm
  -- any other byte
  | case9 name pattern i j hj b _ hs _ hc =>
    rw [List.drop_eq_getElem_cons hj, List.drop_eq_nil_of_le (List.getElem?_eq_none_iff.1 hc)]
    exact iff_of_false Bool.false_ne_true fun h => hs (beq_iff_eq.2 (eq_star_of_fits_nil h))
  | case10 name pattern i j hj b hq hs ho c hc hcb ih =>
    have hlt : i < name.length := (List.getElem?_eq_some_iff.1 hc).1
    have hw : isWildcard b = false := by simp [isWildcard, hq, hs, ho]
    rw [List.drop_eq_getElem_cons hj, drop_of_getElem? hc,
      fits_cons_iff (by simp) fun _ => reads_byte_iff hw, ih hlt]
    exact (and_iff_right hcb).symm
  | case11 name pattern i j hj b hq hs ho c hc hcb =>
    have hw : isWildcard b = false := by simp [isWildcard, hq, hs, ho]
    rw [List.drop_eq_getElem_cons hj, drop_of_getElem? hc,
      fits_cons_iff (by simp) fun _ => reads_byte_iff hw]
    exact iff_of_false Bool.false_ne_true fun h => hcb h.1
  -- the end of the pattern
  | case12 name pattern i j hj =>
    rw [List.drop_eq_nil_of_le (Nat.le_of_not_lt hj), fits_nil_iff, List.drop_eq_nil_iff,
      beq_iff_eq]
    omega

/-- A name matches a pattern exactly if it is spelled by the reading of the pattern. -/
theorem matchesPattern_iff {name pattern : Bytes} :
    matchesPattern style name pattern = true ↔
      ∃ ts, Reads pattern ts ∧ Spells style ts name :=
  scan_iff (Nat.zero_le _)

/-- A pattern of one piece is matched by what the piece takes. -/
theorem matchesPattern_singleton {t : Token} {name pattern : Bytes} (h : Reads pattern [t]) :
    matchesPattern style name pattern = true ↔ Takes style t name := by
  rw [matchesPattern_iff]
  constructor
  · rintro ⟨ts, hts, hs⟩
    have heq : ts = [t] := hts.unique h
    subst heq
    cases hs with
    | cons htake hs =>
      cases hs
      rwa [List.append_nil]
  · intro htake
    refine ⟨[t], h, ?_⟩
    have := Spells.cons htake .nil
    rwa [List.append_nil] at this

/-- What matching means, for every style, name and pattern, and what follows for classes that
have no end or no members. -/
theorem matchesPattern_iff_spells (style : Style) (name pattern : Bytes) :
    (matchesPattern style name pattern = true ↔
      ∃ ts, Reads pattern ts ∧ Spells style ts name) ∧
    (∀ p ts body, Reads p ts → closeBracket ∉ body → pattern = p ++ openBracket :: body →
      matchesPattern style name pattern = false) ∧
    matchesPattern style name [openBracket, closeBracket] = false ∧
    (matchesPattern style name [openBracket, bang, closeBracket] = true ↔ ∃ c, name = [c]) := by
  have hnone : Reads [openBracket, closeBracket] [.oneOf false []] :=
    @Reads.among [] [] [] List.not_mem_nil (by simp) .nil
  have hany : Reads [openBracket, bang, closeBracket] [.oneOf true []] :=
    @Reads.notAmong [] [] [] List.not_mem_nil .nil
  refine ⟨matchesPattern_iff, ?_, ?_, ?_⟩
  · rintro p ts body hp hbody rfl
    rw [Bool.eq_false_iff]
    intro h
    obtain ⟨us, hus, -⟩ := matchesPattern_iff.1 h
    exact not_reads_of_unclosed hp hbody hus
  · rw [Bool.eq_false_iff, ne_eq, matchesPattern_singleton hnone, takes_iff (by simp)]
    simp [Token.takes]
  · rw [matchesPattern_singleton hany, takes_iff (by simp)]
    simp [Token.takes]

example : matchesPattern .windows (Bytes.ofAscii "Main.RS") (Bytes.ofAscii "m?[!xyz]*[.].rs") =
    false := by cbv

end BuildScript.Glob
