import BuildScript.Proofs.Path.Split

/-!
# The words of a path

What stands between runs of separators are the words of a path, and a separator at its end adds
an empty segment.

* `Style.words_append_seps`: a run of separators counts as one;
* `Style.words_join`: what is put behind a path is its last word;
* `Style.segments_cut`: splitting a path takes its last segment off.
-/

namespace BuildScript.Path.Style

variable {style : Style}

/-! ## Words -/

/-- What stands between runs of separators. -/
def words (style : Style) (path : Bytes) : List Bytes :=
  (path.splitOnP style.isSep).filter (!·.isEmpty)

theorem isSep_separator (style : Style) : style.isSep style.separator = true := by
  cases style <;> rfl

theorem words_nil : style.words [] = [] := by simp [words]

theorem words_append_cons {x y : Bytes} {b : UInt8} (hb : style.isSep b = true) :
    style.words (x ++ b :: y) = style.words x ++ style.words y := by
  rw [words, List.splitOnP_append_cons x y hb, List.filter_append]
  rfl

theorem words_append_left {seps y : Bytes} (h : ∀ b ∈ seps, style.isSep b = true) :
    style.words (seps ++ y) = style.words y := by
  induction seps with
  | nil => rfl
  | cons b seps ih =>
    have hb := words_append_cons (x := []) (y := seps ++ y) (h b List.mem_cons_self)
    rw [List.cons_append, ← List.nil_append (b :: _), hb, words_nil, List.nil_append]
    exact ih fun c hc => h c (List.mem_cons_of_mem _ hc)

theorem words_eq_nil {seps : Bytes} (h : ∀ b ∈ seps, style.isSep b = true) :
    style.words seps = [] := by
  rw [← List.append_nil seps, words_append_left h, words_nil]

/-- A run of separators counts as one. -/
theorem words_append_seps {x seps y : Bytes} (hne : seps ≠ [])
    (h : ∀ b ∈ seps, style.isSep b = true) :
    style.words (x ++ seps ++ y) = style.words x ++ style.words y := by
  cases seps with
  | nil => exact absurd rfl hne
  | cons b seps =>
    rw [List.append_assoc, List.cons_append, words_append_cons (h b List.mem_cons_self),
      words_append_left fun c hc => h c (List.mem_cons_of_mem _ hc)]

theorem words_of_not_isSep {segment : Bytes} (hne : segment ≠ [])
    (h : ∀ b ∈ segment, style.isSep b = false) : style.words segment = [segment] := by
  rw [words, List.splitOnP_eq_singleton h]
  simp [hne]

theorem ne_nil_of_mem_words {path word : Bytes} (h : word ∈ style.words path) : word ≠ [] := by
  simpa using (List.mem_filter.1 h).2

/-- The words of what is put behind a path come behind its own. -/
theorem words_behind (base path : Bytes) :
    style.words (base ++ ((if style.needsSep base then [style.separator] else []) ++ path)) =
      style.words base ++ style.words path := by
  by_cases hneeds : style.needsSep base = true
  · rw [if_pos hneeds, List.singleton_append, words_append_cons (isSep_separator style)]
  rw [if_neg hneeds, List.nil_append]
  obtain rfl | ⟨l, b, rfl, hb⟩ := needsSep_eq_false_iff.1 (Bool.not_eq_true _ ▸ hneeds)
  · rw [words_nil]
    rfl
  · rw [List.append_assoc, List.singleton_append, words_append_cons hb, words_append_cons hb,
      words_nil, List.append_nil]

theorem words_join {base component : Bytes} (hne : component ≠ [])
    (h : ∀ b ∈ component, style.isSep b = false) (habs : style.isAbsolute component = false) :
    style.words (style.join base component) = style.words base ++ [component] := by
  rw [join_of_not_isAbsolute habs, words_behind, words_of_not_isSep hne h]

/-! ## Segments -/

/-- The words of a path. A separator at the end adds an empty segment. -/
def segments (style : Style) (path : Bytes) : List Bytes :=
  style.words path ++ if path.getLast?.any style.isSep then [[]] else []

theorem segments_of_needsSep {path : Bytes} (h : style.needsSep path = true) :
    style.segments path = style.words path := by
  obtain ⟨l, b, rfl, hb⟩ := Style.needsSep_iff.1 h
  simp [segments, hb]

/-- The last segment of a path is the last of its segments. -/
theorem segments_cut {path seps : Bytes} {parts : Split} (h : style.Cut path seps parts)
    (hne : path ≠ []) : style.segments path = style.words parts.head ++ [parts.tail] := by
  have hwords : style.words path = style.words parts.head ++ style.words parts.tail := by
    rw [h.path_eq]
    rcases h.head with ⟨hseps, -⟩ | ⟨hseps, hroot⟩
    · exact words_append_seps hseps h.isSep_seps
    · rw [hseps, List.append_nil, words_append_left hroot, words_eq_nil hroot, List.nil_append]
  rw [segments, hwords]
  by_cases htail : parts.tail = []
  · have hlast : path.getLast?.any style.isSep = true := by
      have hsep : ∀ b ∈ path.getLast?, style.isSep b = true := by
        rw [h.path_eq, htail, List.append_nil]
        exact h.isSep_last
      cases hp : path.getLast? with
      | none => exact absurd (List.getLast?_eq_none_iff.1 hp) hne
      | some b => exact hsep b hp
    rw [htail, words_nil, List.append_nil, if_pos hlast]
  · have hlast : path.getLast?.any style.isSep = false := by
      rw [h.path_eq, List.getLast?_append_of_ne_nil _ htail]
      cases ht : parts.tail.getLast? with
      | none => rfl
      | some b => exact h.isSep_tail b (List.mem_of_getLast? ht)
    rw [words_of_not_isSep htail h.isSep_tail, hlast]
    simp

end BuildScript.Path.Style
