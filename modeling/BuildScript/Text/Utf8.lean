import BuildScript.Text.Bytes

/-!
# UTF-8

Scalar values are written as one to four bytes. Reading is a machine that takes one byte at
a time: between characters, or inside one with a number of bytes still owed and a range for
the next of them.

* `encode`: the bytes of a text;
* `items`: the characters of a string of bytes, with `none` for every malformed part, a
  malformed part being as long as it can be while a well-formed continuation was possible;
* `decode?`: the text, if no part is malformed;
* `decodeLossy`: the text, with U+FFFD for every malformed part.
-/

namespace BuildScript.Utf8

/-! ## Writing -/

/-- The bytes of one character. -/
def encodeChar (c : Char) : Bytes :=
  let n := c.toNat
  if n < 0x80 then [UInt8.ofNat n]
  else if n < 0x800 then [UInt8.ofNat (0xC0 + n / 64), UInt8.ofNat (0x80 + n % 64)]
  else if n < 0x10000 then
    [UInt8.ofNat (0xE0 + n / 4096), UInt8.ofNat (0x80 + n / 64 % 64), UInt8.ofNat (0x80 + n % 64)]
  else
    [UInt8.ofNat (0xF0 + n / 262144), UInt8.ofNat (0x80 + n / 4096 % 64),
      UInt8.ofNat (0x80 + n / 64 % 64), UInt8.ofNat (0x80 + n % 64)]

def encodeChars (cs : List Char) : Bytes := cs.flatMap encodeChar

def encode (text : String) : Bytes := encodeChars text.toList

/-! ## Reading -/

/-- A character under way: the value so far, how many bytes are owed after the next one, and
the range that the next one must lie in. -/
structure Pending where
  value : Nat
  more : Nat
  low : UInt8
  high : UInt8

/-- What a byte between characters begins. -/
inductive Lead where
  | char (c : Char)
  | pending (p : Pending)
  | malformed

def lead (b : UInt8) : Lead :=
  if b < 0x80 then .char (Char.ofNat b.toNat)
  else if b < 0xC2 then .malformed
  else if b < 0xE0 then .pending ⟨b.toNat - 0xC0, 0, 0x80, 0xBF⟩
  else if b < 0xF0 then
    .pending
      ⟨b.toNat - 0xE0, 1, if b = 0xE0 then 0xA0 else 0x80, if b = 0xED then 0x9F else 0xBF⟩
  else if b < 0xF5 then
    .pending
      ⟨b.toNat - 0xF0, 2, if b = 0xF0 then 0x90 else 0x80, if b = 0xF4 then 0x8F else 0xBF⟩
  else .malformed

/-- The characters of a string of bytes, read on from the given state; `none` is a malformed
part. A byte that cannot continue a character ends it as malformed and is read again as the
first byte of the next. -/
def items : Option Pending → Bytes → List (Option Char)
  | none, [] => []
  | some _, [] => [none]
  | none, b :: rest =>
    match lead b with
    | .char c => some c :: items none rest
    | .pending p => items (some p) rest
    | .malformed => none :: items none rest
  | some p, b :: rest =>
    if p.low ≤ b ∧ b ≤ p.high then
      let value := p.value * 64 + (b.toNat - 0x80)
      match p.more with
      | 0 => some (Char.ofNat value) :: items none rest
      | more + 1 => items (some ⟨value, more, 0x80, 0xBF⟩) rest
    else
      match lead b with
      | .char c => none :: some c :: items none rest
      | .pending p => none :: items (some p) rest
      | .malformed => none :: none :: items none rest

/-- The text that the bytes spell, if they are valid UTF-8. -/
def decode? (bs : Bytes) : Option String :=
  ((items none bs).mapM id).map String.ofList

/-- The text that the bytes spell, with U+FFFD for what is malformed. -/
def decodeLossy (bs : Bytes) : String :=
  String.ofList ((items none bs).map (·.getD '\uFFFD'))

/-- The bytes with every malformed part written as U+FFFD. -/
def scrub (bs : Bytes) : Bytes := encode (decodeLossy bs)

/-! ## Blanks -/

/-- The characters with the Unicode property White_Space. -/
def isBlank (c : Char) : Bool :=
  let n := c.toNat
  (0x09 ≤ n && n ≤ 0x0D) || n = 0x20 || n = 0x85 || n = 0xA0 || n = 0x1680 ||
  (0x2000 ≤ n && n ≤ 0x200A) || n = 0x2028 || n = 0x2029 || n = 0x202F || n = 0x205F ||
  n = 0x3000

/-- A text without the blanks at its ends. -/
def trim (cs : List Char) : List Char :=
  ((cs.dropWhile isBlank).reverse.dropWhile isBlank).reverse

end BuildScript.Utf8
