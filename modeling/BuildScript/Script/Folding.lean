import BuildScript.Script.Arithmetic

/-!
# Constant expressions

Operators between constants are worked out while a script is read, where that cannot go wrong.
The value stays the same; what messages call it does not.

* `Expr.isConstant`, `Expr.truth?`: expressions that are constants;
* `Expr.unaryOf`, `Expr.binaryOf`, `Expr.bothOf`, `Expr.eitherOf`: an operator with its
  operands.
-/

namespace BuildScript.Script

namespace Expr

def isConstant : Expr → Bool
  | nil | bool _ | number _ | string _ => true
  | _ => false

/-- Whether a constant is true. -/
def truth? : Expr → Option Bool
  | nil => some false
  | bool b => some b
  | number _ | string _ => some true
  | _ => none

/-- Whether an expression can have many values. -/
def isMany : Expr → Bool
  | rest | call .. | invoke .. => true
  | _ => false

/-- An expression with the first of its values alone. -/
def one (e : Expr) : Expr := if e.isMany then single e else e

/-- Whether a number that was worked out takes the place of its operator: zeros with a point
and what is not a number do not. -/
def replaces : Number → Bool
  | .whole _ => true
  | .float x => x != 0.0
  | .undefined _ => false

/-- Whether an operator divides by a number. -/
def divides : Binary → Bool
  | .div | .floorDiv | .mod => true
  | _ => false

def unaryOf (op : Unary) (operand : Expr) (line : Nat) : Expr :=
  let plain := unary op operand line
  match op, operand with
  | .not, e =>
    match e.truth? with
    | some b => bool (!b)
    | none => plain
  | op, number n =>
    match (Arithmetic.unary? op n).filter replaces with
    | some m => number m
    | none => plain
  | _, _ => plain

def binaryOf (op : Binary) (left right : Expr) (line : Nat) : Expr :=
  let plain := binary op left right line
  match left, right with
  | number a, number b =>
    if divides op && b.toFloat == 0.0 then plain
    else
      match (Arithmetic.binary? op a b).filter replaces with
      | some m => number m
      | none => plain
  | _, _ => plain

def bothOf (left right : Expr) : Expr :=
  if left.truth? = some true then right.one else both left right

def eitherOf (left right : Expr) : Expr :=
  if left.truth? = some false then right.one else either left right

end Expr

end BuildScript.Script
