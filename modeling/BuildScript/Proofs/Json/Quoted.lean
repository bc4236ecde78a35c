import BuildScript.Json.Quoted
import BuildScript.Proofs.Text.Utf8

/-!
# Strings that are written are read back

* `encodeChar_plain`: the bytes of a character that needs no escape stand for themselves;
* `stringBody_escape`: one character of a string;
* `text_quote`: a whole string, with anything behind it;
* `printable_of_mem_quote`: a written string has no byte below the blank.
-/

namespace BuildScript.Json

/-! ## Characters without an escape -/

/-- A byte that stands for itself in a string. -/
def Plain (b : UInt8) : Prop := b ≠ quoteByte ∧ b ≠ escapeByte ∧ 0x20 ≤ b

theorem plain_ofNat {n : Nat} (hn : n < 256) (hquote : n ≠ 0x22) (hescape : n ≠ 0x5C)
    (hblank : 0x20 ≤ n) : Plain (UInt8.ofNat n) := by
  have hb : (UInt8.ofNat n).toNat = n := by simp; omega
  refine ⟨?_, ?_, ?_⟩
  · intro h
    exact hquote (hb ▸ congrArg UInt8.toNat h)
  · intro h
    exact hescape (hb ▸ congrArg UInt8.toNat h)
  · rw [UInt8.le_iff_toNat_le, hb]
    exact hblank

theorem encodeChar_plain {c : Char} (hquote : c ≠ '"') (hescape : c ≠ '\\')
    (hblank : 0x20 ≤ c.toNat) : ∀ b ∈ Utf8.encodeChar c, Plain b := by
  obtain ⟨-, hmax⟩ := Utf8.toNat_bounds c
  have hquote : c.toNat ≠ 0x22 := fun h => hquote (Char.toNat_inj.1 h)
  have hescape : c.toNat ≠ 0x5C := fun h => hescape (Char.toNat_inj.1 h)
  generalize hn : c.toNat = n at hmax hquote hescape hblank
  intro b hb
  simp only [Utf8.encodeChar, hn] at hb
  split at hb
  · obtain rfl : b = UInt8.ofNat n := by simpa using hb
    exact plain_ofNat (by omega) hquote hescape hblank
  · split at hb
    · simp only [List.mem_cons, List.not_mem_nil, or_false] at hb
      rcases hb with rfl | rfl
      all_goals exact plain_ofNat (by omega) (by omega) (by omega) (by omega)
    · split at hb
      · simp only [List.mem_cons, List.not_mem_nil, or_false] at hb
        rcases hb with rfl | rfl | rfl
        all_goals exact plain_ofNat (by omega) (by omega) (by omega) (by omega)
      · simp only [List.mem_cons, List.not_mem_nil, or_false] at hb
        rcases hb with rfl | rfl | rfl | rfl
        all_goals exact plain_ofNat (by omega) (by omega) (by omega) (by omega)

theorem behind_append (bs cs : Bytes) (r : Except Fault (Bytes × Bytes)) :
    behind (bs ++ cs) r = behind bs (behind cs r) := by
  cases r with
  | error e => rfl
  | ok found => simp [behind, Except.map]

theorem behind_nil (r : Except Fault (Bytes × Bytes)) : behind [] r = r := by
  cases r <;> rfl

/-! ## Steps of the reader -/

theorem stringBody_close (rest : Bytes) :
    stringBody none (quoteByte :: rest) = .ok ([], rest) := by
  rw [stringBody.eq_def]
  rfl

theorem stringBody_byte {b : UInt8} (h : Plain b) (rest : Bytes) :
    stringBody none (b :: rest) = behind [b] (stringBody none rest) := by
  obtain ⟨hquote, hescape, hblank⟩ := h
  rw [stringBody.eq_def]
  dsimp only
  rw [if_neg hquote, if_neg hescape, if_neg (UInt8.not_lt.2 hblank)]

theorem stringBody_letter {letter : UInt8} {c : Char} (hu : letter ≠ 0x75)
    (h : shortEscape? letter = some c) (rest : Bytes) :
    stringBody none (escapeByte :: letter :: rest) =
      behind (Utf8.encodeChar c) (stringBody none rest) := by
  rw [stringBody.eq_def]
  dsimp only
  rw [if_neg (by decide), if_pos rfl, if_neg hu, h]

/-- The number of a character that is no surrogate. -/
theorem stringBody_number {a b c d : UInt8} {n : Nat} (h : hexWord? a b c d = some n)
    (hlow : isLowSurrogate n = false) (hhigh : isHighSurrogate n = false) (rest : Bytes) :
    stringBody none (escapeByte :: 0x75 :: a :: b :: c :: d :: rest) =
      behind (Utf8.encodeChar (Char.ofNat n)) (stringBody none rest) := by
  rw [stringBody.eq_def]
  dsimp only
  rw [if_neg (by decide), if_pos rfl, if_pos rfl, h]
  dsimp only
  rw [hlow, hhigh]
  rfl

theorem stringBody_plain {bs : Bytes} (h : ∀ b ∈ bs, Plain b) (rest : Bytes) :
    stringBody none (bs ++ rest) = behind bs (stringBody none rest) := by
  induction bs with
  | nil => rw [List.nil_append, behind_nil]
  | cons b bs ih =>
    rw [List.cons_append, stringBody_byte (h b List.mem_cons_self),
      ih fun c hc => h c (List.mem_cons_of_mem _ hc), ← behind_append]
    rfl

/-! ## Escapes -/

theorem shortEscape?_of_mem {letter : UInt8} {c : Char} (h : (letter, c) ∈ shortEscapes) :
    letter ≠ 0x75 ∧ shortEscape? letter = some c ∧ 0x20 ≤ letter := by
  have hall : ∀ e ∈ shortEscapes, e.1 ≠ 0x75 ∧ shortEscape? e.1 = some e.2 ∧ 0x20 ≤ e.1 := by
    decide
  exact hall _ h

theorem hexDigit?_hexDigit {n : Nat} (h : n < 16) :
    Bytes.hexDigit? (hexDigit n) = some n ∧ 0x20 ≤ hexDigit n := by
  interval_cases n <;> exact ⟨rfl, by decide⟩

theorem hexWord?_of_lt {n : Nat} (h : n < 0x20) :
    hexWord? 0x30 0x30 (hexDigit (n / 16)) (hexDigit (n % 16)) = some n := by
  have hzero : Bytes.hexDigit? 0x30 = some 0 := rfl
  rw [hexWord?, hzero, (hexDigit?_hexDigit (by omega : n / 16 < 16)).1,
    (hexDigit?_hexDigit (by omega : n % 16 < 16)).1]
  simp only [Option.some.injEq]
  omega

/-- How a character is written: as one letter behind a backslash, as the number of a control
character, or as it is. -/
theorem escape_cases (c : Char) :
    (∃ letter, (letter, c) ∈ shortEscapes ∧ escape c = [escapeByte, letter]) ∨
    (c.toNat < 0x20 ∧ escape c =
      [escapeByte, 0x75, 0x30, 0x30, hexDigit (c.toNat / 16), hexDigit (c.toNat % 16)]) ∨
    ((∀ b ∈ Utf8.encodeChar c, Plain b) ∧ escape c = Utf8.encodeChar c) := by
  cases hfind : shortEscapes.find? (·.2 == c) with
  | some found =>
    obtain ⟨letter, d⟩ := found
    have hd : d = c := by simpa using List.find?_some hfind
    subst hd
    exact .inl ⟨letter, List.mem_of_find?_eq_some hfind, by simp [escape, hfind]⟩
  | none =>
    have hnone := List.find?_eq_none.1 hfind
    have hquote : c ≠ '"' := by
      rintro rfl
      exact hnone (0x22, '"') (by decide) rfl
    have hescape : c ≠ '\\' := by
      rintro rfl
      exact hnone (0x5C, '\\') (by decide) rfl
    by_cases hlt : c.toNat < 0x20
    · exact .inr (.inl ⟨hlt, by simp [escape, hfind, hlt]⟩)
    · exact .inr (.inr ⟨encodeChar_plain hquote hescape (by omega), by simp [escape, hfind, hlt]⟩)

/-- One written character is read as the bytes that it stands for. -/
theorem stringBody_escape (c : Char) (rest : Bytes) :
    stringBody none (escape c ++ rest) = behind (Utf8.encodeChar c) (stringBody none rest) := by
  rcases escape_cases c with ⟨letter, hmem, heq⟩ | ⟨hlt, heq⟩ | ⟨hplain, heq⟩
  · obtain ⟨hu, hshort, -⟩ := shortEscape?_of_mem hmem
    rw [heq]
    exact stringBody_letter hu hshort rest
  · have hlow : isLowSurrogate c.toNat = false := by simp [isLowSurrogate]; omega
    have hhigh : isHighSurrogate c.toNat = false := by simp [isHighSurrogate]; omega
    have hbody := stringBody_number (hexWord?_of_lt hlt) hlow hhigh rest
    rw [Char.ofNat_toNat] at hbody
    rw [heq]
    exact hbody
  · rw [heq, stringBody_plain hplain]

/-! ## Strings -/

theorem stringBody_quoted (cs : List Char) (rest : Bytes) :
    stringBody none (cs.flatMap escape ++ quoteByte :: rest) =
      .ok (Utf8.encodeChars cs, rest) := by
  induction cs with
  | nil => exact stringBody_close rest
  | cons c cs ih =>
    rw [List.flatMap_cons, List.append_assoc, stringBody_escape, ih]
    rfl

/-- A string that was written is read as its text, whatever follows it. -/
theorem text_quote (s : String) (rest : Bytes) :
    text (s.toList.flatMap escape ++ quoteByte :: rest) = .ok (s, rest) := by
  have hdecode : Utf8.decode? (Utf8.encodeChars s.toList) = some s := Utf8.decode?_encode s
  rw [text, stringBody_quoted]
  simp only [Except.bind, hdecode]

theorem quote_append (s : String) (rest : Bytes) :
    quote s ++ rest = quoteByte :: (s.toList.flatMap escape ++ quoteByte :: rest) := by
  simp [quote]

theorem printable_of_mem_quote {s : String} {b : UInt8} (h : b ∈ quote s) : 0x20 ≤ b := by
  rcases List.mem_cons.1 h with rfl | h
  · decide
  · rcases List.mem_append.1 h with h | h
    · obtain ⟨c, -, hb⟩ := List.mem_flatMap.1 h
      rcases escape_cases c with ⟨letter, hmem, heq⟩ | ⟨hlt, heq⟩ | ⟨hplain, heq⟩
      · obtain ⟨-, -, hletter⟩ := shortEscape?_of_mem hmem
        rw [heq] at hb
        simp only [List.mem_cons, List.not_mem_nil, or_false] at hb
        rcases hb with rfl | rfl
        · decide
        · exact hletter
      · rw [heq] at hb
        simp only [List.mem_cons, List.not_mem_nil, or_false] at hb
        rcases hb with rfl | rfl | rfl | rfl | rfl | rfl
        · decide
        · decide
        · decide
        · decide
        · exact (hexDigit?_hexDigit (by omega)).2
        · exact (hexDigit?_hexDigit (by omega)).2
      · rw [heq] at hb
        exact (hplain b hb).2.2
    · have hb : b = quoteByte := by simpa using h
      subst hb
      decide

end BuildScript.Json
