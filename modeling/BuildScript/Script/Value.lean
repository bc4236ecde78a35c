import BuildScript.Script.Fault
import BuildScript.Script.Number

/-!
# Values of scripts

Tables and functions are shared: a value names one of them, and a store holds what they are.

* `Value`: what a script computes with;
* `Value.rawEq`: when two values are the same;
* `Value.text`: what a value is shown as.
-/

namespace BuildScript.Script

inductive Value where
  | nil
  | bool (b : Bool)
  | number (n : Number)
  | string (bs : Bytes)
  | table (id : Nat)
  | function (id : Nat)
  | thread
  /-- An address that means nothing to a script. -/
  | address
  | fault (f : Fault)

namespace Value

/-- A text of ASCII characters. -/
def ofAscii (text : String) : Value := string (Bytes.ofAscii text)

def whole (n : Int) : Value := number (.whole (Int64.ofInt n))

def isNil : Value → Bool
  | nil => true
  | _ => false

/-- Only `nil` and `false` are not true. -/
def isTrue : Value → Bool
  | nil | bool false => false
  | _ => true

def isFunction : Value → Bool
  | function _ => true
  | _ => false

/-- The type that scripts see. -/
def typeName : Value → String
  | nil => "nil"
  | bool _ => "boolean"
  | number _ => "number"
  | string _ => "string"
  | table _ => "table"
  | function _ => "function"
  | thread => "thread"
  | address | fault _ => "userdata"

/-- The type that messages of the given functions name, where whole numbers are told from
others. -/
def exactTypeName : Value → String
  | number (.whole _) => "integer"
  | address => "lightuserdata"
  | fault _ => "error"
  | v => v.typeName

/-- Equality without a look into tables. -/
def rawEq : Value → Value → Bool
  | nil, nil => true
  | bool a, bool b => a == b
  | number a, number b => a.eq b
  | string a, string b => a == b
  | table a, table b => a == b
  | function a, function b => a == b
  | thread, thread => true
  | address, address => true
  | fault a, fault b => a == b
  | _, _ => false

/-- A string, or the text of a number. -/
def toBytes? : Value → Option Bytes
  | string bs => some bs
  | number n => some n.text
  | _ => none

/-- A number, or the number that a string stands for. -/
def toNumber? : Value → Option Number
  | number n => some n
  | string bs => Number.read? bs
  | _ => none

/-- The text of an address, made from the number of what is there. -/
def addressText (kind : String) (id : Nat) : Bytes :=
  Bytes.ofAscii kind ++ Bytes.ofAscii ": 0x" ++
    Bytes.ofAscii (String.ofList (Nat.toDigits 16 (0x550000000000 + 64 * id)))

/-- The text that a value is shown as. -/
def text : Value → Bytes
  | nil => Bytes.ofAscii "nil"
  | bool b => Bytes.ofAscii (if b then "true" else "false")
  | number n => n.text
  | string bs => bs
  | table id => addressText "table" id
  | function id => addressText "function" id
  | thread => addressText "thread" 0
  | address => addressText "userdata" 0
  | fault f => Utf8.encode f.message

/-- The fault that a raised value is where no script catches it. A text ends at its first NUL
then. -/
def raised : Value → Fault
  | fault f => f
  | v => .runtime (Utf8.decodeLossy v.text.untilNul)

end Value

end BuildScript.Script
