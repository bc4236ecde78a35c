import BuildScript.Script.Arithmetic
import BuildScript.Script.Run

/-!
# Operators

What the operators of a script do with values, and what is said when they cannot.

* `arithmetic`, `bitwise`, `concatenate`, `length`: operators that can fail;
* `below`, `belowOrEqual`: the order of numbers and of texts.

Texts of numbers are numbers for arithmetic. That is work of the functions for texts: they know
no place in the script but that of their call, and have words of their own.
-/

namespace BuildScript.Script

namespace Operators

open Run

/-- What is said of a value that something cannot be done with. -/
def cannot (deed : String) (v : Value) (subject : Option Subject) : Bytes :=
  Bytes.ofAscii ("attempt to " ++ deed ++ " a " ++ v.typeName ++ " value") ++ Subject.text subject

def deed : String := "perform arithmetic on"

/-- What is said of an operation on numbers without a result. -/
def noResult (op : Binary) : Bytes :=
  Bytes.ofAscii (if op = .mod then "attempt to perform 'n%0'" else "attempt to divide by zero")

/-- An operand and what it is called. -/
structure Operand where
  value : Value
  subject : Option Subject

def Operand.isNumber (o : Operand) : Bool :=
  match o.value with
  | .number _ => true
  | _ => false

def Operand.isString (o : Operand) : Bool :=
  match o.value with
  | .string _ => true
  | _ => false

/-- The first of two operands that is not a number. -/
def culprit (a b : Operand) : Operand := if a.isNumber then b else a

/-- What operators are called where texts are concerned. -/
def word : Binary → String
  | .add => "add"
  | .sub => "sub"
  | .mul => "mul"
  | .div => "div"
  | .mod => "mod"
  | .pow => "pow"
  | _ => "idiv"

/-- What is said of two values, one of them a text, that have no result. -/
def noTexts (word : String) (a b : Value) : Bytes :=
  Bytes.ofAscii ("attempt to " ++ word ++ " a '" ++ a.typeName ++ "' with a '" ++ b.typeName ++ "'")

/-- An operation on numbers or texts of numbers. -/
def arithmetic (place : Place) (op : Binary) (f : Number → Number → Option Number)
    (a b : Operand) : Run Value :=
  let onTexts := a.isString || b.isString
  match a.value.toNumber?, b.value.toNumber? with
  | some x, some y =>
    match f x y with
    | some n => return .number n
    | none => if onTexts then raise (.string (noResult op)) else failAt place (noResult op)
  | _, _ =>
    if onTexts then failAt place (noTexts (word op) a.value b.value)
    else failAt place (cannot deed (culprit a b).value (culprit a b).subject)

/-- An operation on words. Texts are no words. -/
def bitwise (place : Place) (f : Int64 → Int64 → Int64) (a b : Operand) : Run Value :=
  match a.value, b.value with
  | .number x, .number y =>
    match x.toWhole?, y.toWhole? with
    | some v, some w => return .number (.whole (f v w))
    | v?, _ =>
      failAt place (Bytes.ofAscii "number" ++
        Subject.text (if v?.isNone then a.subject else b.subject) ++
        Bytes.ofAscii " has no integer representation")
  | _, _ =>
    let o := culprit a b
    failAt place (cannot "perform bitwise operation on" o.value o.subject)

/-- Two texts, or the texts of numbers, behind one another. -/
def concatenate (place : Place) (a b : Operand) : Run Value :=
  match a.value.toBytes?, b.value.toBytes? with
  | some x, some y => return .string (x ++ y)
  | x?, _ =>
    let o := if x?.isSome then b else a
    failAt place (cannot "concatenate" o.value o.subject)

def length (place : Place) (a : Operand) : Run Value := do
  match a.value with
  | .string bs => return .whole bs.length
  | .table id => return .whole (← make (·.tableLength id))
  | v => failAt place (cannot "get length of" v a.subject)

def negate (place : Place) (a : Operand) : Run Value :=
  match a.value.toNumber? with
  | some n => return .number n.negate
  | none =>
    if a.isString then failAt place (noTexts "unm" a.value a.value)
    else failAt place (cannot deed a.value a.subject)

def complement (place : Place) (a : Operand) : Run Value :=
  bitwise place (fun v _ => ~~~v) a a

/-- What is said of two values without an order. -/
def noOrder (a b : Value) : Bytes :=
  Bytes.ofAscii
    (if a.typeName = b.typeName then "attempt to compare two " ++ a.typeName ++ " values"
    else "attempt to compare " ++ a.typeName ++ " with " ++ b.typeName)

/-- An order of numbers and of texts. -/
def inOrder (place : Place) (numbers : Number → Number → Bool)
    (texts : Bytes → Bytes → Bool) (a b : Value) : Run Value :=
  match a, b with
  | .number x, .number y => return .bool (numbers x y)
  | .string x, .string y => return .bool (texts x y)
  | a, b => failAt place (noOrder a b)

def below (place : Place) : Value → Value → Run Value :=
  inOrder place Number.lt fun x y => decide (x < y)

def belowOrEqual (place : Place) : Value → Value → Run Value :=
  inOrder place Number.le fun x y => !decide (y < x)

end Operators

end BuildScript.Script
