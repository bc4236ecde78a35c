import BuildScript.Text.Utf8

/-!
# Strings in JSON

A string is written between quotes with the quote, the backslash and the characters below
U+0020 escaped, and everything else as UTF-8. It is read from any of the spellings that the
format allows.

* `quote`: the one way in which a text is written;
* `stringBody`: what follows an opening quote, read as the bytes of a text;
* `text`: the same, checked to be a text;
* `skipString`: the same, with no look at what the escapes mean.
-/

namespace BuildScript.Json

/-- Why a document cannot be read. -/
inductive Fault where
  /-- It is not well formed. -/
  | malformed
  /-- It is well formed so far, but not what is wanted. -/
  | unwanted
  /-- It ends too early. -/
  | ended
  deriving DecidableEq, Repr

def quoteByte : UInt8 := 0x22
def escapeByte : UInt8 := 0x5C

/-! ## Writing -/

def hexDigit (n : Nat) : UInt8 := if n < 10 then UInt8.ofNat (0x30 + n) else UInt8.ofNat (0x57 + n)

/-- The escapes of one letter, and the characters that they stand for. -/
def shortEscapes : List (UInt8 × Char) :=
  [(0x22, '"'), (0x5C, '\\'), (0x62, '\x08'), (0x66, '\x0c'), (0x6E, '\n'), (0x72, '\r'),
    (0x74, '\t')]

/-- One character of a string. -/
def escape (c : Char) : Bytes :=
  match shortEscapes.find? (·.2 == c) with
  | some (letter, _) => [escapeByte, letter]
  | none =>
    if c.toNat < 0x20 then
      [escapeByte, 0x75, 0x30, 0x30, hexDigit (c.toNat / 16), hexDigit (c.toNat % 16)]
    else Utf8.encodeChar c

/-- A text as a string. -/
def quote (text : String) : Bytes :=
  quoteByte :: (text.toList.flatMap escape ++ [quoteByte])

/-! ## Reading -/

/-- The value of four hexadecimal digits. -/
def hexWord? (a b c d : UInt8) : Option Nat :=
  match Bytes.hexDigit? a, Bytes.hexDigit? b, Bytes.hexDigit? c, Bytes.hexDigit? d with
  | some a, some b, some c, some d => some (4096 * a + 256 * b + 16 * c + d)
  | _, _, _, _ => none

def isHighSurrogate (n : Nat) : Bool := 0xD800 ≤ n && n < 0xDC00

def isLowSurrogate (n : Nat) : Bool := 0xDC00 ≤ n && n < 0xE000

/-- The character that an escape of one letter stands for. A slash may be escaped too. -/
def shortEscape? (letter : UInt8) : Option Char :=
  if letter = 0x2F then some '/' else (shortEscapes.lookup letter)

/-- What is read of a string and what follows it, with some bytes in front. -/
def behind (bs : Bytes) (r : Except Fault (Bytes × Bytes)) : Except Fault (Bytes × Bytes) :=
  r.map fun found => (bs ++ found.1, found.2)

/-- The bytes that a string stands for and what follows its closing quote. After an escape
for a high surrogate one for a low surrogate has to follow. -/
def stringBody : Option Nat → Bytes → Except Fault (Bytes × Bytes)
  | _, [] => .error .ended
  | some high, b :: rest =>
    if b = escapeByte then
      match rest with
      | [] => .error .ended
      | u :: rest =>
        if u = 0x75 then
          match rest with
          | a :: b :: c :: d :: rest =>
            match hexWord? a b c d with
            | none => .error .malformed
            | some low =>
              if isLowSurrogate low then
                behind (Utf8.encodeChar
                  (Char.ofNat (0x10000 + 1024 * (high - 0xD800) + (low - 0xDC00))))
                  (stringBody none rest)
              else .error .malformed
          | _ => .error .ended
        else .error .malformed
    else .error .malformed
  | none, b :: rest =>
    if b = quoteByte then .ok ([], rest)
    else if b = escapeByte then
      match rest with
      | [] => .error .ended
      | u :: rest =>
        if u = 0x75 then
          match rest with
          | a :: b :: c :: d :: rest =>
            match hexWord? a b c d with
            | none => .error .malformed
            | some n =>
              if isLowSurrogate n then .error .malformed
              else if isHighSurrogate n then stringBody (some n) rest
              else behind (Utf8.encodeChar (Char.ofNat n)) (stringBody none rest)
          | _ => .error .ended
        else
          match shortEscape? u with
          | none => .error .malformed
          | some c => behind (Utf8.encodeChar c) (stringBody none rest)
    else if b < 0x20 then .error .malformed
    else behind [b] (stringBody none rest)

/-- The text that a string stands for. Bytes that are no text are only noticed at its end. -/
def text (bs : Bytes) : Except Fault (String × Bytes) :=
  (stringBody none bs).bind fun found =>
    match Utf8.decode? found.1 with
    | some text => .ok (text, found.2)
    | none => .error .malformed

/-- What follows a string whose value does not matter: only its form is looked at. -/
def skipString : Bytes → Except Fault Bytes
  | [] => .error .ended
  | b :: rest =>
    if b = quoteByte then .ok rest
    else if b = escapeByte then
      match rest with
      | [] => .error .ended
      | u :: rest =>
        if u = 0x75 then
          match rest with
          | a :: b :: c :: d :: rest =>
            if (hexWord? a b c d).isSome then skipString rest else .error .malformed
          | _ => .error .ended
        else if (shortEscape? u).isSome then skipString rest
        else .error .malformed
    else if b < 0x20 then .error .malformed
    else skipString rest

end BuildScript.Json
