import BuildScript.Script.Program

/-!
# Arithmetic

What the operators give for numbers.

* `Arithmetic.onNumbers?`, `Arithmetic.onWords?`: the operations behind the operators;
* `Arithmetic.binary?`, `Arithmetic.unary?`: what an operator gives, if that is a number.
-/

namespace BuildScript.Script

namespace Arithmetic

/-- An operation on numbers. It may have no result. -/
def onNumbers? : Binary → Option (Number → Number → Option Number)
  | .add => some fun a b => some (a.add b)
  | .sub => some fun a b => some (a.sub b)
  | .mul => some fun a b => some (a.mul b)
  | .div => some fun a b => some (a.div b)
  | .pow => some fun a b => some (a.pow b)
  | .mod => some Number.mod?
  | .floorDiv => some Number.floorDiv?
  | _ => none

/-- The number of bits of a whole number. -/
def bits : Nat := 64

/-- A word moved to the left by an amount below `bits`, or to the right by one above
`-bits`. -/
def shift (a : Int64) (amount : Int) : Int64 :=
  let word := a.toUInt64.toNat
  if bits ≤ amount.natAbs then 0
  else if 0 ≤ amount then Int64.ofInt (word <<< amount.toNat : Nat)
  else Int64.ofInt (word >>> amount.natAbs : Nat)

/-- An operation on words. -/
def onWords? : Binary → Option (Int64 → Int64 → Int64)
  | .bitAnd => some fun a b => a &&& b
  | .bitOr => some fun a b => a ||| b
  | .bitXor => some fun a b => a ^^^ b
  | .shiftLeft => some fun a b => shift a b.toInt
  | .shiftRight => some fun a b => shift a (-b.toInt)
  | _ => none

/-- What an operator gives for two numbers. -/
def binary? (op : Binary) (a b : Number) : Option Number :=
  match onNumbers? op, onWords? op with
  | some f, _ => f a b
  | _, some f => do return .whole (f (← a.toWhole?) (← b.toWhole?))
  | _, _ => none

/-- What an operator gives for one number. -/
def unary? (op : Unary) (a : Number) : Option Number :=
  match op with
  | .negate => some a.negate
  | .complement => a.toWhole?.map fun w => .whole (~~~w)
  | _ => none

end Arithmetic

end BuildScript.Script
