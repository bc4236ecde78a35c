import BuildScript.Text.Decimal

/-!
# Numbers of scripts

A number is a whole number of 64 bits or a double. Whole numbers wrap around; an operation on
a whole number and a double works on doubles. A double that is whole stands for the same
number as the whole number.

What an operation on doubles gives where it has no result is a number, too, with a sign of its
own: the sign is a minus at first, and stays the same in all that is made of it but negations.

* `Number.text`: the decimal text;
* `Number.read?`: a number from a text, with blanks and a sign;
* `numeral`: the part of a source that is taken for a number;
* arithmetic and order.
-/

namespace BuildScript.Script

inductive Number where
  | whole (n : Int64)
  | float (x : Float)
  /-- What is not a number. -/
  | undefined (negative : Bool)

namespace Number

/-! ## Conversions -/

def text : Number → Bytes
  | whole n => Bytes.ofInt n.toInt
  | float x => Decimal.ofFloat x
  | undefined negative => Bytes.ofAscii (if negative then "-nan" else "nan")

def toFloat : Number → Float
  | whole n => Float.ofInt n.toInt
  | float x => x
  | undefined _ => 0.0 / 0.0

/-- The same number as a double. -/
def widen : Number → Number
  | whole n => float (Float.ofInt n.toInt)
  | n => n

/-- The end of the whole numbers, from which on there are only doubles. -/
def wholeEnd : Float := 9223372036854775808.0

/-- The whole number that a double stands for. -/
def wholeOfFloat? (x : Float) : Option Int64 :=
  if x.floor == x && -wholeEnd ≤ x && x < wholeEnd then some x.toInt64 else none

/-- The whole number that a number stands for. -/
def toWhole? : Number → Option Int64
  | whole n => some n
  | float x => wholeOfFloat? x
  | undefined _ => none

/-! ## Reading -/

/-- The blanks around the text of a number. -/
def isBlank (b : UInt8) : Bool := b == 0x20 || (0x09 ≤ b && b ≤ 0x0D)

def trim (bs : Bytes) : Bytes :=
  ((bs.dropWhile isBlank).reverse.dropWhile isBlank).reverse

/-- A sign in front: whether it is a minus, and what follows it. -/
def sign : Bytes → Bool × Bytes
  | [] => (false, [])
  | b :: rest =>
    if b = 0x2D then (true, rest)
    else if b = 0x2B then (false, rest)
    else (false, b :: rest)

def isHexDigit (b : UInt8) : Bool := (Bytes.hexDigit? b).isSome

/-- The number that digits of base 16 stand for. -/
def hexadecimal (digits : Bytes) : Nat :=
  digits.foldl (fun n d => 16 * n + (Bytes.hexDigit? d).getD 0) 0

/-- Digits with a point among them or not: those before it and those behind it. -/
def splitPoint (isDigit : UInt8 → Bool) (bs : Bytes) : Bytes × Bytes × Bytes :=
  let whole := bs.takeWhile isDigit
  match bs.dropWhile isDigit with
  | [] => (whole, [], [])
  | b :: rest =>
    if b = Decimal.point then (whole, rest.takeWhile isDigit, rest.dropWhile isDigit)
    else (whole, [], b :: rest)

/-- An exponent behind one of two marks, or none. Nothing else may follow. -/
def exponent? (small large : UInt8) : Bytes → Option Int
  | [] => some 0
  | b :: rest =>
    if b = small ∨ b = large then
      let (negative, digits) := sign rest
      if digits.isEmpty || !digits.all Bytes.isDigit then none
      else some (if negative then -(Bytes.decimal digits : Int) else Bytes.decimal digits)
    else none

/-- Beyond this many places from the point a double is infinite, or zero. -/
def farPlace : Int := 400

/-- The double nearest to a whole number times a power of ten. -/
def scaleTen (n : Nat) (exponent : Int) : Float :=
  let first := (Decimal.length n : Int) + exponent
  if n = 0 then 0.0
  else if farPlace < first then 1.0 / 0.0
  else if first < -farPlace then 0.0
  else Float.ofScientific n (exponent < 0) exponent.natAbs

/-- A whole number times a power of two. -/
def scaleTwo (n : Nat) (exponent : Int) : Float :=
  if n = 0 then 0.0 else (Float.ofNat n).scaleB (max (-20000) (min 20000 exponent))

/-- A number in base 16, behind its mark. Whole ones wrap around. -/
def readHex? (bs : Bytes) : Option Number :=
  if !bs.isEmpty && bs.all isHexDigit then
    some (whole (Int64.ofInt (hexadecimal bs)))
  else
    let (before, behind, rest) := splitPoint isHexDigit bs
    if before.isEmpty && behind.isEmpty then none
    else
      (exponent? 0x70 0x50 rest).map fun e =>
        float (scaleTwo (hexadecimal (before ++ behind)) (e - 4 * behind.length))

/-- The largest whole number. -/
def maxWhole : Nat := 9223372036854775807

/-- A number in base 10. One that is too large for a whole number is a double. -/
def readDecimal? (negative : Bool) (bs : Bytes) : Option Number :=
  let n := Bytes.decimal bs
  if !bs.isEmpty && bs.all Bytes.isDigit && n ≤ maxWhole + (if negative then 1 else 0) then
    some (whole (Int64.ofInt n))
  else
    let (before, behind, rest) := splitPoint Bytes.isDigit bs
    if before.isEmpty && behind.isEmpty then none
    else
      (exponent? 0x65 0x45 rest).map fun e =>
        float (scaleTen (Bytes.decimal (before ++ behind)) (e - behind.length))

def negate : Number → Number
  | whole n => whole (-n)
  | float x => float (-x)
  | undefined negative => undefined (!negative)

/-- The mark of base 16. -/
def hexMark? : Bytes → Option Bytes
  | a :: b :: rest => if a = 0x30 ∧ (b = 0x78 ∨ b = 0x58) then some rest else none
  | _ => none

/-- The number that a text stands for, with blanks at both ends and a sign or not. -/
def read? (bs : Bytes) : Option Number :=
  let (negative, body) := sign (trim bs)
  let n := match hexMark? body with
    | some digits => readHex? digits
    | none => readDecimal? negative body
  if negative then n.map negate else n

/-! ## Arithmetic -/

/-- The result of an operation on two numbers, from what it gives for doubles. -/
def ofDoubles (a b : Number) (f : Float → Float → Float) : Number :=
  let x := f a.toFloat b.toFloat
  if x == x then float x
  else
    match a, b with
    | undefined negative, _ => undefined negative
    | _, undefined negative => undefined negative
    | _, _ => undefined true

/-- An operation with a version for whole numbers and one for doubles. -/
def lift (onWhole : Int64 → Int64 → Int64) (onFloat : Float → Float → Float) :
    Number → Number → Number
  | whole a, whole b => whole (onWhole a b)
  | a, b => ofDoubles a b onFloat

def add : Number → Number → Number := lift (· + ·) (· + ·)
def sub : Number → Number → Number := lift (· - ·) (· - ·)
def mul : Number → Number → Number := lift (· * ·) (· * ·)

def div (a b : Number) : Number := ofDoubles a b (· / ·)

/-- A power. Squares are products. -/
def pow (a b : Number) : Number := ofDoubles a b fun x y => if y == 2.0 then x * x else x ^ y

/-- The quotient rounded down, unless it is one of whole numbers by zero. -/
def floorDiv? : Number → Number → Option Number
  | whole a, whole b =>
    if b = 0 then none else some (whole (Int64.ofInt (Int.fdiv a.toInt b.toInt)))
  | a, b => some (ofDoubles a b fun x y => (x / y).floor)

/-- The remainder of doubles with the sign of the first one, taken from the exact values. -/
def remainder (a b : Float) : Float :=
  match Decimal.Binary.ofFloat a, Decimal.Binary.ofFloat b with
  | .finite negative m e, .finite _ n f =>
    if n = 0 then 0.0 / 0.0
    else
      let low := min e f
      let r := (m <<< (e - low).toNat) % (n <<< (f - low).toNat)
      let x := scaleTwo r low
      if negative then -x else x
  | .finite .., .infinite _ => a
  | _, _ => 0.0 / 0.0

/-- The remainder of a quotient rounded down, unless it is one of whole numbers by zero. -/
def mod? : Number → Number → Option Number
  | whole a, whole b =>
    if b = 0 then none else some (whole (Int64.ofInt (Int.fmod a.toInt b.toInt)))
  | a, b =>
    some (ofDoubles a b fun x y =>
      let r := remainder x y
      if (0.0 < r && y < 0.0) || (r < 0.0 && 0.0 < y) then r + y else r)

/-! ## Order -/

/-- Equality of values: a whole number and a double are equal if they stand for the same
number. -/
def eq : Number → Number → Bool
  | whole a, whole b => a == b
  | float a, float b => a == b
  | whole a, float b => wholeOfFloat? b == some a
  | float a, whole b => wholeOfFloat? a == some b
  | _, _ => false

/-- Whether a whole number is below a double. -/
def wholeBelow (a : Int64) (x : Float) : Bool :=
  if wholeEnd ≤ x then true
  else if x < -wholeEnd then false
  else a.toInt < x.ceil.toInt64.toInt

/-- Whether a double is below a whole number. -/
def floatBelow (x : Float) (b : Int64) : Bool :=
  if wholeEnd ≤ x then false
  else if x < -wholeEnd then true
  else x.floor.toInt64.toInt < b.toInt

def lt : Number → Number → Bool
  | whole a, whole b => a < b
  | float a, float b => a < b
  | whole a, float b => wholeBelow a b
  | float a, whole b => floatBelow a b
  | _, _ => false

def le (a b : Number) : Bool := lt a b || eq a b

/-! ## Numbers in a source -/

/-- What follows the first byte of a number in a source: digits of any base, points and
exponents with their signs. -/
def numeralTail (small large : UInt8) : Bytes → Bytes × Bytes
  | [] => ([], [])
  | b :: rest =>
    if b = small ∨ b = large then
      match rest with
      | s :: after =>
        if s = 0x2D ∨ s = 0x2B then
          let r := numeralTail small large after
          (b :: s :: r.1, r.2)
        else let r := numeralTail small large (s :: after); (b :: r.1, r.2)
      | [] => ([b], [])
    else if isHexDigit b || b = Decimal.point then
      let r := numeralTail small large rest
      (b :: r.1, r.2)
    else ([], b :: rest)

end Number

end BuildScript.Script
