/-!
# Byte strings

Paths, patterns, sources and the values of a script are strings of bytes, which need not
be valid UTF-8. They are lists, ordered lexicographically by their bytes.

* `Bytes.ofAscii`: the bytes of a text of ASCII characters;
* `Bytes.lower`: ASCII letters in lower case, every other byte as it is;
* `Bytes.untilNul`: the part of a text that is shown where texts end at a NUL.
-/

namespace BuildScript

/-- A string of bytes. -/
abbrev Bytes := List UInt8

namespace Bytes

/-- The bytes of a text. Every literal it is used on is ASCII. -/
def ofAscii (text : String) : Bytes :=
  text.toList.map fun c => UInt8.ofNat c.toNat

/-- An ASCII letter in lower case, and any other byte. -/
def lowerByte (b : UInt8) : UInt8 :=
  if 0x41 ≤ b ∧ b ≤ 0x5A then b + 0x20 else b

def lower (bs : Bytes) : Bytes := bs.map lowerByte

/-- The decimal digits. -/
def isDigit (b : UInt8) : Bool := 0x30 ≤ b && b ≤ 0x39

/-- The value of a digit in base 16, either case. -/
def hexDigit? (b : UInt8) : Option Nat :=
  if isDigit b then some (b.toNat - 0x30)
  else if 0x61 ≤ b ∧ b ≤ 0x66 then some (b.toNat - 0x57)
  else if 0x41 ≤ b ∧ b ≤ 0x46 then some (b.toNat - 0x37)
  else none

/-- The number that a string of decimal digits stands for. -/
def decimal (digits : Bytes) : Nat :=
  digits.foldl (fun n d => 10 * n + (d.toNat - 0x30)) 0

/-- The text of a number, in decimal. -/
def ofNat (n : Nat) : Bytes := ofAscii (toString n)

/-- The text of an integer, in decimal. -/
def ofInt (i : Int) : Bytes := if i < 0 then 0x2D :: ofNat i.natAbs else ofNat i.natAbs

/-- What follows `lead` in `bs`, if `bs` begins with it. -/
def after? (lead : Bytes) (bs : Bytes) : Option Bytes :=
  if lead.isPrefixOf bs then some (bs.drop lead.length) else none

/-- What stands before the first NUL. -/
def untilNul (bs : Bytes) : Bytes := bs.takeWhile (· != 0)

end Bytes

end BuildScript
