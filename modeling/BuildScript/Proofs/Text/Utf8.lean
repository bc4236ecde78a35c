import BuildScript.Text.Utf8
import Mathlib.Tactic.IntervalCases

/-!
# Reading UTF-8 back

* `items_encodeChar`: the machine that reads one byte at a time finds the character that was
  written, and is between characters again behind it;
* `decode?_encode`: every text is read back from its bytes;
* `encode_of_decode?`: nothing but the bytes of a text is read as that text.
-/

namespace BuildScript.Utf8

/-! ## First bytes -/

theorem lead_one {n : Nat} (h : n < 0x80) : lead (UInt8.ofNat n) = .char (Char.ofNat n) := by
  have hn : (UInt8.ofNat n).toNat = n := by simp; omega
  rw [lead, if_pos (by rw [UInt8.lt_iff_toNat_lt, hn]; exact h), hn]

theorem lead_two {k : Nat} (hlow : 2 ≤ k) (hhigh : k < 0x20) :
    lead (UInt8.ofNat (0xC0 + k)) = .pending ⟨k, 0, 0x80, 0xBF⟩ := by
  have hn : (UInt8.ofNat (0xC0 + k)).toNat = 0xC0 + k := by simp; omega
  have h1 : ¬ UInt8.ofNat (0xC0 + k) < 0x80 := by
    rw [UInt8.lt_iff_toNat_lt, hn]; simp; omega
  have h2 : ¬ UInt8.ofNat (0xC0 + k) < 0xC2 := by
    rw [UInt8.lt_iff_toNat_lt, hn]; simp; omega
  have h3 : UInt8.ofNat (0xC0 + k) < 0xE0 := by
    rw [UInt8.lt_iff_toNat_lt, hn]; simp; omega
  rw [lead, if_neg h1, if_neg h2, if_pos h3, hn, Nat.add_sub_cancel_left]

theorem lead_three {k : Nat} (hhigh : k < 0x10) :
    lead (UInt8.ofNat (0xE0 + k)) =
      .pending ⟨k, 1, if k = 0 then 0xA0 else 0x80, if k = 0x0D then 0x9F else 0xBF⟩ := by
  interval_cases k <;> rfl

theorem lead_four {k : Nat} (hhigh : k < 5) :
    lead (UInt8.ofNat (0xF0 + k)) =
      .pending ⟨k, 2, if k = 0 then 0x90 else 0x80, if k = 4 then 0x8F else 0xBF⟩ := by
  interval_cases k <;> rfl

/-! ## Bytes behind the first -/

theorem range_of_bounds {k : Nat} {low high : UInt8} (hk : k < 0x40)
    (hlow : low.toNat ≤ 0x80 + k) (hhigh : 0x80 + k ≤ high.toNat) :
    (UInt8.ofNat (0x80 + k)).toNat = 0x80 + k ∧
      low ≤ UInt8.ofNat (0x80 + k) ∧ UInt8.ofNat (0x80 + k) ≤ high := by
  have hn : (UInt8.ofNat (0x80 + k)).toNat = 0x80 + k := by simp; omega
  refine ⟨hn, ?_⟩
  rw [UInt8.le_iff_toNat_le, UInt8.le_iff_toNat_le, hn]
  exact ⟨hlow, hhigh⟩

/-- A byte in the range that is asked for adds its six low bits. -/
theorem items_last {value k : Nat} {low high : UInt8} (hk : k < 0x40) (rest : Bytes)
    (hlow : low.toNat ≤ 0x80 + k) (hhigh : 0x80 + k ≤ high.toNat) :
    items (some ⟨value, 0, low, high⟩) (UInt8.ofNat (0x80 + k) :: rest) =
      some (Char.ofNat (value * 64 + k)) :: items none rest := by
  obtain ⟨hn, hrange⟩ := range_of_bounds hk hlow hhigh
  rw [items, if_pos hrange, hn, Nat.add_sub_cancel_left]

theorem items_more {value more k : Nat} {low high : UInt8} (hk : k < 0x40) (rest : Bytes)
    (hlow : low.toNat ≤ 0x80 + k) (hhigh : 0x80 + k ≤ high.toNat) :
    items (some ⟨value, more + 1, low, high⟩) (UInt8.ofNat (0x80 + k) :: rest) =
      items (some ⟨value * 64 + k, more, 0x80, 0xBF⟩) rest := by
  obtain ⟨hn, hrange⟩ := range_of_bounds hk hlow hhigh
  rw [items, if_pos hrange, hn, Nat.add_sub_cancel_left]

/-! ## Characters and texts -/

/-- No character is a surrogate, and none is beyond the last plane. -/
theorem toNat_bounds (c : Char) :
    (c.toNat < 0xD800 ∨ 0xE000 ≤ c.toNat) ∧ c.toNat < 0x110000 := by
  rcases c.valid with h | ⟨h, h'⟩
  · exact ⟨.inl h, Nat.lt_trans h (by decide)⟩
  · exact ⟨.inr h, h'⟩

theorem items_encodeChar (c : Char) (rest : Bytes) :
    items none (encodeChar c ++ rest) = some c :: items none rest := by
  obtain ⟨hsurrogate, hmax⟩ := toNat_bounds c
  generalize hn : c.toNat = n at hsurrogate hmax
  have hc : Char.ofNat n = c := by rw [← hn, Char.ofNat_toNat]
  simp only [encodeChar, hn]
  split
  · rename_i h1
    rw [List.cons_append, List.nil_append, items, lead_one h1, hc]
  · split
    · rename_i h1 h2
      rw [List.cons_append, List.cons_append, List.nil_append, items,
        lead_two (by omega) (by omega)]
      dsimp only
      rw [items_last (by omega) rest (by simp) (by simp; omega)]
      have hvalue : n / 64 * 64 + n % 64 = n := by omega
      rw [hvalue, hc]
    · split
      · rename_i h1 h2 h3
        rw [List.cons_append, List.cons_append, List.cons_append, List.nil_append, items,
          lead_three (by omega)]
        dsimp only
        rw [items_more (by omega) _ (by split <;> simp; omega) (by split <;> simp <;> omega),
          items_last (by omega) rest (by simp) (by simp; omega)]
        have hvalue : (n / 4096 * 64 + n / 64 % 64) * 64 + n % 64 = n := by omega
        rw [hvalue, hc]
      · rename_i h1 h2 h3
        rw [List.cons_append, List.cons_append, List.cons_append, List.cons_append,
          List.nil_append, items, lead_four (by omega)]
        dsimp only
        rw [items_more (by omega) _ (by split <;> simp; omega) (by split <;> simp <;> omega),
          items_more (by omega) _ (by simp) (by simp; omega),
          items_last (by omega) rest (by simp) (by simp; omega)]
        have hvalue :
            ((n / 262144 * 64 + n / 4096 % 64) * 64 + n / 64 % 64) * 64 + n % 64 = n := by
          omega
        rw [hvalue, hc]

theorem items_encodeChars (cs : List Char) : items none (encodeChars cs) = cs.map some := by
  induction cs with
  | nil => rfl
  | cons c cs ih =>
    rw [encodeChars, List.flatMap_cons, items_encodeChar, List.map_cons]
    exact congrArg (some c :: ·) ih

theorem decode?_encodeChars (cs : List Char) :
    decode? (encodeChars cs) = some (String.ofList cs) := by
  have hall : ∀ cs : List Char, (cs.map some).mapM id = some cs := by
    intro cs
    induction cs with
    | nil => rfl
    | cons c cs ih => simp [List.mapM_cons, ih]
  rw [decode?, items_encodeChars, hall, Option.map_some]

theorem decode?_encode (text : String) : decode? (encode text) = some text := by
  rw [encode, decode?_encodeChars, String.ofList_toList]


/-! ## What is read was written -/

theorem cons_none_ne_map (more : List (Option Char)) (cs : List Char) :
    none :: more ≠ cs.map some := by
  cases cs with
  | nil => exact nofun
  | cons c cs =>
    intro h
    cases (List.cons.inj h).1

theorem toNat_ofNat {n : Nat} (h : n < 0xD800 ∨ 0xE000 ≤ n ∧ n < 0x110000) :
    (Char.ofNat n).toNat = n := by
  have hvalid : n.isValidChar := by
    rcases h with h | ⟨h, h'⟩
    · exact .inl h
    · exact .inr ⟨by omega, h'⟩
  rw [Char.ofNat, dif_pos hvalid]
  rfl

/-- Inside a character that is whole, the next byte lies in the range that is asked for. -/
theorem items_pending {value more : Nat} {low high : UInt8} {bs : Bytes} {cs : List Char}
    (hlow : 0x80 ≤ low.toNat) (hhigh : high.toNat ≤ 0xBF)
    (h : items (some ⟨value, more, low, high⟩) bs = cs.map some) :
    ∃ k rest, k < 0x40 ∧ low.toNat ≤ 0x80 + k ∧ 0x80 + k ≤ high.toNat ∧
      bs = UInt8.ofNat (0x80 + k) :: rest := by
  cases bs with
  | nil => exact absurd h (cons_none_ne_map _ _)
  | cons b rest =>
    by_cases hrange : low ≤ b ∧ b ≤ high
    · obtain ⟨hb, hb'⟩ := hrange
      rw [UInt8.le_iff_toNat_le] at hb hb'
      refine ⟨b.toNat - 0x80, rest, by omega, by omega, by omega, ?_⟩
      have hbyte : 0x80 + (b.toNat - 0x80) = b.toNat := by omega
      rw [hbyte, UInt8.ofNat_toNat]
    · rw [items, if_neg hrange] at h
      cases hlead : lead b with
      | char c =>
        rw [hlead] at h
        exact absurd h (cons_none_ne_map _ _)
      | pending q =>
        rw [hlead] at h
        exact absurd h (cons_none_ne_map _ _)
      | malformed =>
        rw [hlead] at h
        exact absurd h (cons_none_ne_map _ _)

/-- What a first byte can be. -/
theorem lead_cases (b : UInt8) :
    b.toNat < 0x80 ∨ (∃ k, 2 ≤ k ∧ k < 0x20 ∧ b = UInt8.ofNat (0xC0 + k)) ∨
      (∃ k, k < 0x10 ∧ b = UInt8.ofNat (0xE0 + k)) ∨ (∃ k, k < 5 ∧ b = UInt8.ofNat (0xF0 + k)) ∨
      lead b = .malformed := by
  have hb : UInt8.ofNat b.toNat = b := UInt8.ofNat_toNat
  by_cases h1 : b.toNat < 0x80
  · exact .inl h1
  by_cases h2 : b.toNat < 0xC2
  · refine .inr (.inr (.inr (.inr ?_)))
    rw [lead, if_neg (by rw [UInt8.lt_iff_toNat_lt]; exact h1),
      if_pos (by rw [UInt8.lt_iff_toNat_lt]; exact h2)]
  by_cases h3 : b.toNat < 0xE0
  · refine .inr (.inl ⟨b.toNat - 0xC0, by omega, by omega, ?_⟩)
    have hbyte : 0xC0 + (b.toNat - 0xC0) = b.toNat := by omega
    rw [hbyte, hb]
  by_cases h4 : b.toNat < 0xF0
  · refine .inr (.inr (.inl ⟨b.toNat - 0xE0, by omega, ?_⟩))
    have hbyte : 0xE0 + (b.toNat - 0xE0) = b.toNat := by omega
    rw [hbyte, hb]
  by_cases h5 : b.toNat < 0xF5
  · refine .inr (.inr (.inr (.inl ⟨b.toNat - 0xF0, by omega, ?_⟩)))
    have hbyte : 0xF0 + (b.toNat - 0xF0) = b.toNat := by omega
    rw [hbyte, hb]
  · refine .inr (.inr (.inr (.inr ?_)))
    rw [lead, if_neg (by rw [UInt8.lt_iff_toNat_lt]; exact h1),
      if_neg (by rw [UInt8.lt_iff_toNat_lt]; exact h2),
      if_neg (by rw [UInt8.lt_iff_toNat_lt]; exact h3),
      if_neg (by rw [UInt8.lt_iff_toNat_lt]; exact h4),
      if_neg (by rw [UInt8.lt_iff_toNat_lt]; exact h5)]

/-- Characters that are all whole are read off the front, one by one. -/
theorem items_front {b : UInt8} {bs : Bytes} {cs : List Char}
    (h : items none (b :: bs) = cs.map some) :
    ∃ c cs' rest, cs = c :: cs' ∧ b :: bs = encodeChar c ++ rest ∧
      items none rest = cs'.map some := by
  have front : ∀ c rest, b :: bs = encodeChar c ++ rest →
      ∃ c cs' rest, cs = c :: cs' ∧ b :: bs = encodeChar c ++ rest ∧
        items none rest = cs'.map some := by
    intro c rest hbytes
    rw [hbytes, items_encodeChar] at h
    cases cs with
    | nil => cases h
    | cons c' cs' =>
      obtain ⟨hc, hrest⟩ := List.cons.inj h
      cases hc
      exact ⟨c, cs', rest, rfl, hbytes, hrest⟩
  rcases lead_cases b with h1 | ⟨k, hk, hk', rfl⟩ | ⟨k, hk, rfl⟩ | ⟨k, hk, rfl⟩ | hmalformed
  · apply front (Char.ofNat b.toNat) bs
    rw [encodeChar, toNat_ofNat (.inl (by omega)), if_pos h1, UInt8.ofNat_toNat]
    rfl
  · rw [items, lead_two hk hk'] at h
    obtain ⟨j, rest, hj, -, -, rfl⟩ := items_pending (by simp) (by simp) h
    apply front (Char.ofNat (k * 64 + j)) rest
    have hchar := toNat_ofNat (n := k * 64 + j) (.inl (by omega))
    have hhead : (k * 64 + j) / 64 = k := by omega
    have htail : (k * 64 + j) % 64 = j := by omega
    simp only [encodeChar, hchar, hhead, htail]
    rw [if_neg (by omega), if_pos (by omega)]
    rfl
  · rw [items, lead_three hk] at h
    obtain ⟨i, rest₁, hi, hlow, hhigh, rfl⟩ :=
      items_pending (by split <;> simp) (by split <;> simp) h
    dsimp only at h
    rw [items_more hi rest₁ hlow hhigh] at h
    obtain ⟨j, rest, hj, -, -, rfl⟩ := items_pending (by simp) (by simp) h
    apply front (Char.ofNat ((k * 64 + i) * 64 + j)) rest
    -- it does not fit in two bytes, and it is no surrogate
    have hlong : k = 0 → 0x20 ≤ i := by
      rintro rfl
      rw [if_pos rfl] at hlow
      exact Nat.le_of_add_le_add_left hlow
    have hscalar : k = 0x0D → i ≤ 0x1F := by
      rintro rfl
      rw [if_pos rfl] at hhigh
      exact Nat.le_of_add_le_add_left hhigh
    have hchar := toNat_ofNat (n := (k * 64 + i) * 64 + j) (by omega)
    have hhead : ((k * 64 + i) * 64 + j) / 4096 = k := by omega
    have hmid : ((k * 64 + i) * 64 + j) / 64 % 64 = i := by omega
    have htail : ((k * 64 + i) * 64 + j) % 64 = j := by omega
    simp only [encodeChar, hchar, hhead, hmid, htail]
    rw [if_neg (by omega), if_neg (by omega), if_pos (by omega)]
    rfl
  · rw [items, lead_four hk] at h
    obtain ⟨i, rest₁, hi, hlow, hhigh, rfl⟩ :=
      items_pending (by split <;> simp) (by split <;> simp) h
    dsimp only at h
    rw [items_more hi rest₁ hlow hhigh] at h
    obtain ⟨m, rest₂, hm, hm₁, hm₂, rfl⟩ := items_pending (by simp) (by simp) h
    rw [items_more hm rest₂ hm₁ hm₂] at h
    obtain ⟨j, rest, hj, -, -, rfl⟩ := items_pending (by simp) (by simp) h
    apply front (Char.ofNat (((k * 64 + i) * 64 + m) * 64 + j)) rest
    have hlong : k = 0 → 0x10 ≤ i := by
      rintro rfl
      rw [if_pos rfl] at hlow
      exact Nat.le_of_add_le_add_left hlow
    have hscalar : k = 4 → i ≤ 0x0F := by
      rintro rfl
      rw [if_pos rfl] at hhigh
      exact Nat.le_of_add_le_add_left hhigh
    have hchar := toNat_ofNat (n := ((k * 64 + i) * 64 + m) * 64 + j) (by omega)
    have hhead : (((k * 64 + i) * 64 + m) * 64 + j) / 262144 = k := by omega
    have hsecond : (((k * 64 + i) * 64 + m) * 64 + j) / 4096 % 64 = i := by omega
    have hthird : (((k * 64 + i) * 64 + m) * 64 + j) / 64 % 64 = m := by omega
    have htail : (((k * 64 + i) * 64 + m) * 64 + j) % 64 = j := by omega
    simp only [encodeChar, hchar, hhead, hsecond, hthird, htail]
    rw [if_neg (by omega), if_neg (by omega), if_neg (by omega)]
    rfl
  · rw [items, hmalformed] at h
    exact absurd h (cons_none_ne_map _ _)

theorem encodeChars_of_items {bs : Bytes} {cs : List Char} (h : items none bs = cs.map some) :
    encodeChars cs = bs := by
  induction cs generalizing bs with
  | nil =>
    cases bs with
    | nil => rfl
    | cons b bs =>
      obtain ⟨c, cs', rest, hnil, -⟩ := items_front h
      cases hnil
  | cons c cs ih =>
    cases bs with
    | nil => cases h
    | cons b bs =>
      obtain ⟨c', cs', rest, heq, hbytes, hrest⟩ := items_front h
      obtain ⟨rfl, rfl⟩ := List.cons.inj heq
      rw [hbytes, ← ih hrest]
      rfl

theorem eq_map_of_mapM_id {xs : List (Option Char)} {cs : List Char} (h : xs.mapM id = some cs) :
    xs = cs.map some := by
  induction xs generalizing cs with
  | nil =>
    cases h
    rfl
  | cons x xs ih =>
    rw [List.mapM_cons] at h
    obtain ⟨c, hc, hrest⟩ := Option.bind_eq_some_iff.1 h
    obtain ⟨cs', hcs', hcons⟩ := Option.bind_eq_some_iff.1 hrest
    obtain rfl : c :: cs' = cs := Option.some.inj hcons
    rw [ih hcs', List.map_cons, ← hc, id]

/-- Only the bytes of a text are read as that text. -/
theorem encode_of_decode? {bs : Bytes} {text : String} (h : decode? bs = some text) :
    encode text = bs := by
  obtain ⟨cs, hcs, rfl⟩ := Option.map_eq_some_iff.1 h
  rw [encode, String.toList_ofList]
  exact encodeChars_of_items (eq_map_of_mapM_id hcs)

end BuildScript.Utf8
