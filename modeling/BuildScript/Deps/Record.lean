import BuildScript.Files.Error

/-!
# Dependency records

A record tells about one file that a script read or wrote. On the wire it is a header of 44
bytes and the name, with nothing in between and nothing behind it. All words are little
endian.

| offset | size | field                               |
|--------|------|-------------------------------------|
| 0      | 2    | bit 0 output, bits 1 to 15 kind     |
| 2      | 2    | length of the name                  |
| 4      | 8    | time stamp, zero when unknown       |
| 12     | 32   | checksum, zeros when unknown        |
| 44     | len  | name                                |

* `Record.encode`: the bytes of a record, with the name cut to what its length can tell;
* `decode`: the record at the start of a string of bytes.
-/

namespace BuildScript.Deps

def headerLength : Nat := 44

/-- The longest name that a record can carry. -/
def maxNameLength : Nat := 65535

/-- The bytes of a checksum. -/
abbrev Checksum := Vector UInt8 32

def noChecksum : Checksum := Vector.replicate 32 0

/-- A file, and whether it is produced or used. -/
structure Record where
  output : Bool
  kind : UInt16
  timestamp : UInt64
  checksum : Checksum
  name : Bytes
  deriving DecidableEq

namespace Record

/-- A file that is used. -/
def input (name : Bytes) : Record := ⟨false, 0, 0, noChecksum, name⟩

/-- A file that is produced. -/
def product (name : Bytes) : Record := ⟨true, 0, 0, noChecksum, name⟩

end Record

/-! ## Words -/

/-- The `n` low bytes of a number, the lowest first. -/
def littleEndian : Nat → Nat → Bytes
  | 0, _ => []
  | n + 1, value => UInt8.ofNat value :: littleEndian n (value / 256)

/-- The number that bytes spell, the lowest first. -/
def ofLittleEndian : Bytes → Nat
  | [] => 0
  | b :: rest => b.toNat + 256 * ofLittleEndian rest

/-! ## Encoding -/

namespace Record

/-- The name as it is written. -/
def wireName (r : Record) : Bytes := r.name.take maxNameLength

def encodedLength (r : Record) : Nat := headerLength + r.wireName.length

/-- The first word: the output flag under the 15 low bits of the kind. -/
def flags (r : Record) : Nat := (if r.output then 1 else 0) + 2 * (r.kind.toNat % 32768)

def header (r : Record) : Bytes :=
  littleEndian 2 r.flags ++ littleEndian 2 r.wireName.length ++
    littleEndian 8 r.timestamp.toNat ++ r.checksum.toList

def encode (r : Record) : Bytes := r.header ++ r.wireName

end Record

/-! ## Decoding -/

/-- Why there is no record. -/
inductive ReadError where
  /-- The bytes end within the record. -/
  | truncated (needed available : Nat)
  | io (e : IoError)
  deriving DecidableEq, Repr

def ReadError.message : ReadError → String
  | truncated needed available =>
    "record truncated: need " ++ toString needed ++ " bytes, have " ++ toString available
  | io e => "failed to read record: " ++ e.message

/-- Thirty-two bytes, or zeros where there are fewer. -/
def checksumOf (bs : Bytes) : Checksum := Vector.ofFn fun i => bs.getD i.val 0

/-- The fields of a header and the length of the name that follows it. -/
def ofHeader (header : Bytes) : Record × Nat :=
  let flags := ofLittleEndian (header.take 2)
  (⟨flags % 2 == 1, UInt16.ofNat (flags / 2),
      UInt64.ofNat (ofLittleEndian ((header.drop 4).take 8)), checksumOf (header.drop 12), []⟩,
    ofLittleEndian ((header.drop 2).take 2))

/-- The record at the start of a string of bytes, and how many bytes it takes. -/
def decode (bs : Bytes) : Except ReadError (Record × Nat) :=
  if bs.length < headerLength then .error (.truncated headerLength bs.length)
  else
    let fields := ofHeader (bs.take headerLength)
    let needed := headerLength + fields.2
    if bs.length < needed then .error (.truncated needed bs.length)
    else .ok ({ fields.1 with name := (bs.drop headerLength).take fields.2 }, needed)

/-- A decoded record takes at least a header, and not more than there is. -/
theorem decode_used {bs : Bytes} {r : Record} {used : Nat} (h : decode bs = .ok (r, used)) :
    headerLength ≤ used ∧ used ≤ bs.length := by
  unfold decode at h
  dsimp only at h
  split at h
  · cases h
  · split at h
    · cases h
    · injection h with h
      injection h with _ h
      omega

/-- The records that a string of bytes begins with, and what is left when no whole one
follows. -/
def decodeAll (bs : Bytes) : List Record × Bytes :=
  match h : decode bs with
  | .error _ => ([], bs)
  | .ok (r, used) =>
    have : bs.length - used < bs.length := by
      obtain ⟨h1, h2⟩ := decode_used h
      have : headerLength = 44 := rfl
      omega
    let more := decodeAll (bs.drop used)
    (r :: more.1, more.2)
termination_by bs.length
decreasing_by simpa using this

end BuildScript.Deps
