import BuildScript.Deps.Record
import Mathlib.Data.Nat.Bitwise

/-!
# Records survive the wire

What a reader gets of a record is its `delivered` form: the kind without its highest bit and
the name cut to the longest that can be written.

* `ofLittleEndian_littleEndian`, `littleEndian_ofLittleEndian`: words and their bytes;
* `ofHeader_header`, `header_ofHeader`: headers and their fields, in both directions;
* `needed`, `decode_eq`: how many bytes a record takes, and decoding as a matter of having them;
* `decode_encode_roundTrip`: decoding what was encoded, with anything behind it, gives the delivered
  record, and whatever decodes is the encoding of what it decodes to;
* `decode_append`, `decode_take`: bytes behind a record, and a part of one.
-/

namespace BuildScript.Deps

/-! ## Words -/

theorem littleEndian_length (n value : Nat) : (littleEndian n value).length = n := by
  induction n generalizing value with
  | zero => rfl
  | succ n ih => rw [littleEndian, List.length_cons, ih]

theorem ofLittleEndian_lt (bs : Bytes) : ofLittleEndian bs < 256 ^ bs.length := by
  induction bs with
  | nil => decide
  | cons b bs ih =>
    have hb : b.toNat < 256 := b.toNat_lt
    rw [ofLittleEndian, List.length_cons, Nat.pow_succ]
    omega

theorem ofLittleEndian_littleEndian (n value : Nat) :
    ofLittleEndian (littleEndian n value) = value % 256 ^ n := by
  induction n generalizing value with
  | zero => simp [littleEndian, ofLittleEndian, Nat.mod_one]
  | succ n ih =>
    have hb : (UInt8.ofNat value).toNat = value % 256 := by simp
    rw [littleEndian, ofLittleEndian, ih, hb, Nat.pow_succ, Nat.mul_comm (256 ^ n),
      Nat.mod_mul]

theorem littleEndian_ofLittleEndian (bs : Bytes) :
    littleEndian bs.length (ofLittleEndian bs) = bs := by
  induction bs with
  | nil => rfl
  | cons b bs ih =>
    have hb : b.toNat < 256 := b.toNat_lt
    have hlow : UInt8.ofNat (b.toNat + 256 * ofLittleEndian bs) = b := by
      apply UInt8.toNat_inj.1
      rw [UInt8.toNat_ofNat']
      omega
    have hhigh : (b.toNat + 256 * ofLittleEndian bs) / 256 = ofLittleEndian bs := by omega
    rw [ofLittleEndian, List.length_cons, littleEndian, hlow, hhigh, ih]

theorem checksumOf_toList (c : Checksum) : checksumOf c.toList = c := by
  apply Vector.ext
  intro i hi
  simp [checksumOf, List.getD_eq_getElem?_getD]

theorem toList_checksumOf {bs : Bytes} (h : bs.length = 32) : (checksumOf bs).toList = bs := by
  apply List.ext_getElem
  · simp [h]
  · intro i hi hi'
    simp [checksumOf, List.getD_eq_getElem?_getD, hi']

/-! ## Headers -/

namespace Record

/-- What arrives of a record: the low 15 bits of its kind, and of its name what its length can
tell. -/
def delivered (r : Record) : Record :=
  { r with kind := r.kind &&& 0x7FFF, name := r.name.take maxNameLength }

theorem wireName_length_lt (r : Record) : r.wireName.length < 65536 := by
  rw [wireName, List.length_take, maxNameLength]
  omega

theorem flags_lt (r : Record) : r.flags < 65536 := by
  rw [flags]
  split <;> omega

theorem header_length (r : Record) : r.header.length = headerLength := by
  simp [header, littleEndian_length, headerLength]

theorem encode_length (r : Record) : r.encode.length = r.encodedLength := by
  rw [encode, List.length_append, header_length, encodedLength]

end Record

theorem kind_flags (r : Record) : UInt16.ofNat (r.flags / 2) = r.kind &&& 0x7FFF := by
  apply UInt16.toNat_inj.1
  have hmask : (r.kind &&& 0x7FFF).toNat = r.kind.toNat % 32768 := by
    rw [UInt16.toNat_and]
    exact Nat.and_two_pow_sub_one_eq_mod r.kind.toNat 15
  rw [hmask, UInt16.toNat_ofNat', Record.flags]
  split <;> omega

theorem output_flags (r : Record) : (r.flags % 2 == 1) = r.output := by
  rw [Record.flags]
  cases r.output
  · simp
  · have : (1 + 2 * (r.kind.toNat % 32768)) % 2 = 1 := by omega
    simp [this]

/-- The fields of a written header. -/
theorem ofHeader_header (r : Record) :
    ofHeader r.header = ({ r.delivered with name := [] }, r.wireName.length) := by
  have hflags : r.header.take 2 = littleEndian 2 r.flags := by
    rw [Record.header, List.append_assoc, List.append_assoc]
    exact List.take_left' (littleEndian_length _ _)
  have hname : (r.header.drop 2).take 2 = littleEndian 2 r.wireName.length := by
    rw [Record.header, List.append_assoc, List.append_assoc,
      List.drop_left' (littleEndian_length _ _)]
    exact List.take_left' (littleEndian_length _ _)
  have htime : (r.header.drop 4).take 8 = littleEndian 8 r.timestamp.toNat := by
    rw [Record.header, List.append_assoc, List.drop_left' (by simp [littleEndian_length])]
    exact List.take_left' (littleEndian_length _ _)
  have hsum : r.header.drop 12 = r.checksum.toList := by
    rw [Record.header, List.drop_left' (by simp [littleEndian_length])]
  have hflagsValue : ofLittleEndian (littleEndian 2 r.flags) = r.flags := by
    rw [ofLittleEndian_littleEndian]
    exact Nat.mod_eq_of_lt r.flags_lt
  have hnameValue : ofLittleEndian (littleEndian 2 r.wireName.length) = r.wireName.length := by
    rw [ofLittleEndian_littleEndian]
    exact Nat.mod_eq_of_lt r.wireName_length_lt
  have htimeValue : UInt64.ofNat (ofLittleEndian (littleEndian 8 r.timestamp.toNat)) =
      r.timestamp := by
    rw [ofLittleEndian_littleEndian]
    apply UInt64.toNat_inj.1
    rw [UInt64.toNat_ofNat']
    have := r.timestamp.toNat_lt
    omega
  simp only [ofHeader, hflags, hname, htime, hsum, hflagsValue, hnameValue, htimeValue,
    checksumOf_toList, kind_flags, output_flags]
  rfl

/-- A header is the one that is written for its fields. -/
theorem header_ofHeader {h name : Bytes} (hlen : h.length = headerLength)
    (hname : name.length = (ofHeader h).2) :
    Record.header { (ofHeader h).1 with name := name } = h := by
  have hlen : h.length = 44 := hlen
  let word := ofLittleEndian (h.take 2)
  have hword : word < 65536 := by
    have := ofLittleEndian_lt (h.take 2)
    rwa [List.length_take, hlen] at this
  have hsize : (ofHeader h).2 < 65536 := by
    have := ofLittleEndian_lt ((h.drop 2).take 2)
    rwa [List.length_take, List.length_drop, hlen] at this
  have hstamp : ofLittleEndian ((h.drop 4).take 8) < 2 ^ 64 := by
    have := ofLittleEndian_lt ((h.drop 4).take 8)
    rwa [List.length_take, List.length_drop, hlen] at this
  have hflags : Record.flags { (ofHeader h).1 with name := name } = word := by
    have hkind : (UInt16.ofNat (word / 2)).toNat % 32768 = word / 2 := by
      rw [UInt16.toNat_ofNat']
      omega
    simp only [Record.flags, ofHeader, beq_iff_eq]
    change (if word % 2 = 1 then 1 else 0) + 2 * ((UInt16.ofNat (word / 2)).toNat % 32768) = word
    rw [hkind]
    split <;> omega
  have hwire : (Record.wireName { (ofHeader h).1 with name := name }).length =
      ofLittleEndian ((h.drop 2).take 2) := by
    change (name.take maxNameLength).length = (ofHeader h).2
    rw [List.length_take, hname, maxNameLength]
    omega
  have htime : (UInt64.ofNat (ofLittleEndian ((h.drop 4).take 8))).toNat =
      ofLittleEndian ((h.drop 4).take 8) := by
    rw [UInt64.toNat_ofNat']
    exact Nat.mod_eq_of_lt hstamp
  have hword2 : littleEndian 2 word = h.take 2 := by
    have := littleEndian_ofLittleEndian (h.take 2)
    rwa [List.length_take, hlen] at this
  have hname2 : littleEndian 2 (ofLittleEndian ((h.drop 2).take 2)) = (h.drop 2).take 2 := by
    have := littleEndian_ofLittleEndian ((h.drop 2).take 2)
    rwa [List.length_take, List.length_drop, hlen] at this
  have htime8 : littleEndian 8 (ofLittleEndian ((h.drop 4).take 8)) = (h.drop 4).take 8 := by
    have := littleEndian_ofLittleEndian ((h.drop 4).take 8)
    rwa [List.length_take, List.length_drop, hlen] at this
  have hsum : (checksumOf (h.drop 12)).toList = h.drop 12 :=
    toList_checksumOf (by rw [List.length_drop, hlen])
  rw [Record.header, hflags, hwire, hword2, hname2]
  change h.take 2 ++ (h.drop 2).take 2 ++
    littleEndian 8 (UInt64.ofNat (ofLittleEndian ((h.drop 4).take 8))).toNat ++
    (checksumOf (h.drop 12)).toList = h
  rw [htime, htime8, hsum, ← List.take_add, ← List.take_add, List.take_append_drop]

/-! ## What decoding takes -/

/-- How many bytes the record at the start takes, as far as the bytes tell: those of a header, or
of a header and the name that it announces. -/
def needed (bs : Bytes) : Nat :=
  if bs.length < headerLength then headerLength
  else headerLength + (ofHeader (bs.take headerLength)).2

/-- The record at the start, if all of its bytes are there. -/
def recordAt (bs : Bytes) : Record :=
  let fields := ofHeader (bs.take headerLength)
  { fields.1 with name := (bs.drop headerLength).take fields.2 }

/-- Decoding succeeds exactly if the bytes that are needed are there. -/
theorem decode_eq (bs : Bytes) : decode bs =
    if bs.length < needed bs then .error (.truncated (needed bs) bs.length)
    else .ok (recordAt bs, needed bs) := by
  rw [decode, needed]
  split <;> rfl

theorem decode_eq_ok_iff {bs : Bytes} {r : Record} {used : Nat} :
    decode bs = .ok (r, used) ↔ needed bs ≤ bs.length ∧ r = recordAt bs ∧ used = needed bs := by
  rw [decode_eq]
  split
  · simp only [reduceCtorEq, false_iff]
    omega
  · simp only [Except.ok.injEq, Prod.mk.injEq]
    constructor
    · rintro ⟨rfl, rfl⟩
      exact ⟨by omega, rfl, rfl⟩
    · rintro ⟨-, rfl, rfl⟩
      exact ⟨rfl, rfl⟩

theorem decode_eq_error_iff {bs : Bytes} {e : ReadError} :
    decode bs = .error e ↔ bs.length < needed bs ∧ e = .truncated (needed bs) bs.length := by
  rw [decode_eq]
  split
  · rename_i hlt
    simp [hlt, eq_comm]
  · rename_i hlt
    simp [hlt]

theorem headerLength_le_needed (bs : Bytes) : headerLength ≤ needed bs := by
  rw [needed]
  split <;> omega

theorem needed_of_short {bs : Bytes} (h : bs.length < headerLength) : needed bs = headerLength :=
  if_pos h

theorem needed_of_long {bs : Bytes} (h : headerLength ≤ bs.length) :
    needed bs = headerLength + (ofHeader (bs.take headerLength)).2 :=
  if_neg (Nat.not_lt.2 h)

/-! ## Records -/

theorem decode_encode_append (r : Record) (rest : Bytes) :
    decode (r.encode ++ rest) = .ok (r.delivered, r.encodedLength) := by
  have hheader : (r.encode ++ rest).take headerLength = r.header := by
    rw [Record.encode, List.append_assoc, ← r.header_length, List.take_left]
  have hbody : (r.encode ++ rest).drop headerLength = r.wireName ++ rest := by
    rw [Record.encode, List.append_assoc, ← r.header_length, List.drop_left]
  have hlen : r.encodedLength ≤ (r.encode ++ rest).length := by
    rw [List.length_append, r.encode_length]
    omega
  have hlong : headerLength ≤ (r.encode ++ rest).length := (Nat.le_add_right _ _).trans hlen
  have hneeded : needed (r.encode ++ rest) = r.encodedLength := by
    rw [needed_of_long hlong, hheader, ofHeader_header]
    rfl
  have hrecord : recordAt (r.encode ++ rest) = r.delivered := by
    simp only [recordAt, hheader, ofHeader_header, hbody, List.take_left]
    rfl
  rw [decode_eq, hneeded, if_neg (Nat.not_lt.2 hlen), hrecord]

theorem encode_decode {bs : Bytes} {r : Record} {used : Nat} (h : decode bs = .ok (r, used)) :
    r.encode = bs.take used := by
  obtain ⟨hwhole, rfl, rfl⟩ := decode_eq_ok_iff.1 h
  have hlong : headerLength ≤ bs.length := (headerLength_le_needed bs).trans hwhole
  have hheader : (bs.take headerLength).length = headerLength := List.length_take_of_le hlong
  rw [needed_of_long hlong] at hwhole ⊢
  generalize hf : ofHeader (bs.take headerLength) = fields at hwhole ⊢
  have hname : ((bs.drop headerLength).take fields.2).length = fields.2 := by
    rw [List.length_take, List.length_drop]
    omega
  have hrecord : recordAt bs = { fields.1 with name := (bs.drop headerLength).take fields.2 } := by
    rw [recordAt, hf]
  -- the length in a header is that of a name that is written whole
  have hwire : (recordAt bs).wireName = (bs.drop headerLength).take fields.2 := by
    have hsize := ofLittleEndian_lt (((bs.take headerLength).drop 2).take 2)
    have hfields : ofLittleEndian (((bs.take headerLength).drop 2).take 2) = fields.2 := by
      rw [← hf]
      rfl
    rw [hfields, List.length_take, List.length_drop, hheader] at hsize
    rw [hrecord]
    apply List.take_of_length_le
    change ((bs.drop headerLength).take fields.2).length ≤ 65535
    rw [hname]
    exact Nat.le_of_lt_succ hsize
  rw [Record.encode, hwire, hrecord, ← hf, header_ofHeader hheader (by rw [hf]; exact hname), hf,
    List.take_add]

/-! ## More and less bytes -/

/-- Bytes behind a record do not matter. -/
theorem decode_append {bs : Bytes} {r : Record} {used : Nat} (h : decode bs = .ok (r, used))
    (rest : Bytes) : decode (bs ++ rest) = .ok (r, used) := by
  have hfront : bs = r.encode ++ bs.drop used := by rw [encode_decode h, List.take_append_drop]
  have hsame : (Except.ok (r.delivered, r.encodedLength) : Except ReadError (Record × Nat)) =
      .ok (r, used) := by
    rw [← h, ← decode_encode_append r (bs.drop used), ← hfront]
  rw [hfront, List.append_assoc, decode_encode_append, hsame]

/-- A part of a record is none. -/
theorem decode_take {r : Record} {k : Nat} (h : k < r.encode.length) :
    ∃ needed, k < needed ∧ decode (r.encode.take k) = .error (.truncated needed k) := by
  have hlen : (r.encode.take k).length = k := by
    rw [List.length_take]
    omega
  cases hdecode : decode (r.encode.take k) with
  | error e =>
    obtain ⟨hneeded, rfl⟩ := decode_eq_error_iff.1 hdecode
    rw [hlen] at hneeded ⊢
    exact ⟨_, hneeded, rfl⟩
  | ok found =>
    obtain ⟨s, used⟩ := found
    have hwhole := decode_append hdecode (r.encode.drop k)
    have hself := decode_encode_append r []
    rw [List.take_append_drop] at hwhole
    rw [List.append_nil, hwhole] at hself
    injection hself with hself
    obtain ⟨-, rfl⟩ := Prod.mk.inj hself
    have hused := (decode_used hdecode).2
    rw [← r.encode_length] at hused
    omega

/-- Decoding undoes encoding, whatever follows, up to what a record can carry; and what decodes
was encoded from what it decodes to. -/
theorem decode_encode_roundTrip :
    (∀ (r : Record) (rest : Bytes), decode (r.encode ++ rest) = .ok (r.delivered, r.encodedLength) ∧
      r.encodedLength = r.encode.length) ∧
    (∀ (bs : Bytes) (r : Record) (used : Nat), decode bs = .ok (r, used) →
      used ≤ bs.length ∧ r.encode = bs.take used) := by
  constructor
  · intro r rest
    exact ⟨decode_encode_append r rest, r.encode_length.symm⟩
  · intro bs r used h
    obtain ⟨-, hused⟩ := decode_used h
    exact ⟨hused, encode_decode h⟩

end BuildScript.Deps
