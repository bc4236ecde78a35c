import BuildScript.Text.Bytes

/-!
# Decimal text of doubles

A finite double is a whole number times a power of two. Its text has a fixed number of
significant digits, the last one rounded from the exact value with ties to even, and no zeros
at the end behind the point.

* `Binary.ofFloat`: a double taken apart;
* `roundDiv`: the whole number nearest to a quotient;
* `significant`: leading digits and the place of the first of them;
* `general`: positional where the first digit is near the point, else with an exponent.
-/

namespace BuildScript.Decimal

/-! ## Doubles -/

/-- A double: a whole number times a power of two, with a sign, or none of that. -/
inductive Binary where
  | finite (negative : Bool) (mantissa : Nat) (exponent : Int)
  | infinite (negative : Bool)
  | nan
  deriving DecidableEq, Repr

/-- A double taken apart. -/
def Binary.ofFloat (x : Float) : Binary :=
  let bits := x.toBits.toNat
  let negative := bits >>> 63 == 1
  let exponent : Nat := (bits >>> 52) % 2048
  let fraction : Nat := bits % (1 <<< 52)
  if exponent = 2047 then if fraction = 0 then .infinite negative else .nan
  else if exponent = 0 then .finite negative fraction (-1074)
  else .finite negative ((1 <<< 52) + fraction) (exponent - 1075)

/-- A double as a fraction of whole numbers, without its sign. -/
def fraction (mantissa : Nat) (exponent : Int) : Nat × Nat :=
  if exponent < 0 then (mantissa, 1 <<< exponent.natAbs) else (mantissa <<< exponent.toNat, 1)

/-! ## Rounding -/

/-- The whole number nearest to `num / den`, the even one of two. -/
def roundDiv (num den : Nat) : Nat :=
  let q := num / den
  let r := 2 * (num % den)
  if r < den then q else if den < r then q + 1 else if q % 2 = 0 then q else q + 1

/-- The number of decimal digits of a positive whole number. -/
def length (n : Nat) : Nat := (toString n).length

/-- The place of the first digit of a positive fraction: the exponent of the largest power
of ten that it reaches. -/
def place (num den : Nat) : Int :=
  if den ≤ num then (length (num / den) : Int) - 1
  else
    let zeros := length (den / num)
    if den ≤ num * Nat.pow 10 (zeros - 1) then -((zeros : Int) - 1) else -(zeros : Int)

/-- The `count` leading digits of a positive fraction as one number, rounded, and the place of
the first of them. -/
def significant (count num den : Nat) : Nat × Int :=
  let first := place num den
  let shift := (count : Int) - 1 - first
  let digits :=
    if shift < 0 then roundDiv num (den * Nat.pow 10 shift.natAbs)
    else roundDiv (num * Nat.pow 10 shift.toNat) den
  if digits = Nat.pow 10 count then (Nat.pow 10 (count - 1), first + 1) else (digits, first)

/-! ## Text -/

def zero : UInt8 := 0x30
def point : UInt8 := 0x2E
def minus : UInt8 := 0x2D

/-- Digits without the zeros at their end. -/
def dropZeros (digits : Bytes) : Bytes := (digits.reverse.dropWhile (· == zero)).reverse

/-- A point and the digits behind it, if there are any. -/
def behindPoint (digits : Bytes) : Bytes :=
  match dropZeros digits with
  | [] => []
  | ds => point :: ds

/-- An exponent of at least two digits, with its sign. -/
def exponentText (e : Int) : Bytes :=
  let digits := Bytes.ofNat e.natAbs
  0x65 :: (if e < 0 then minus else 0x2B) :: (if digits.length < 2 then zero :: digits else digits)

/-- A positive fraction with `count` significant digits. -/
def general (count num den : Nat) : Bytes :=
  let (digits, first) := significant count num den
  let ds := Bytes.ofNat digits
  if first < -4 ∨ (count : Int) ≤ first then
    ds.take 1 ++ behindPoint (ds.drop 1) ++ exponentText first
  else if first < 0 then
    zero :: behindPoint (List.replicate (first.natAbs - 1) zero ++ ds)
  else
    ds.take (first.toNat + 1) ++ behindPoint (ds.drop (first.toNat + 1))

/-- The significant digits of a number in a script. -/
def scriptDigits : Nat := 14

/-- Whether a text could be that of a whole number. -/
def looksWhole (text : Bytes) : Bool := text.all fun b => b == minus || Bytes.isDigit b

/-- The text of a double in a script: one that looks whole gets a point and a zero. -/
def ofFloat (x : Float) : Bytes :=
  match Binary.ofFloat x with
  | .nan => Bytes.ofAscii "nan"
  | .infinite negative => Bytes.ofAscii (if negative then "-inf" else "inf")
  | .finite negative mantissa exponent =>
    let body :=
      if mantissa = 0 then [zero]
      else
        let (num, den) := fraction mantissa exponent
        general scriptDigits num den
    let text := if negative then minus :: body else body
    if looksWhole text then text ++ [point, zero] else text

end BuildScript.Decimal
