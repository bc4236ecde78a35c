import BuildScript.Script.Number

/-!
# Programs

What a script says, after its tokens have been put together. The lines are those that messages
name when a step fails.

* `Expr`: what gives a value;
* `Target`: what can be assigned to;
* `Stmt`: what is done;
* `Body`: a function without a name. A whole script is one, too.
-/

namespace BuildScript.Script

/-- The variable that holds the table of globals. A name that is not declared is a field of
it. -/
def environmentName : Bytes := Bytes.ofAscii "_ENV"

inductive Unary where
  | negate
  | not
  | length
  | complement
  deriving DecidableEq, Repr

inductive Binary where
  | add | sub | mul | div | mod | pow | floorDiv
  | concat
  | eq | ne | lt | le | gt | ge
  | bitAnd | bitOr | bitXor | shiftLeft | shiftRight
  deriving DecidableEq, Repr

mutual

inductive Expr where
  | nil
  | bool (b : Bool)
  | number (n : Number)
  | string (bs : Bytes)
  /-- The arguments that have no name. -/
  | rest
  /-- A variable that is declared, or the one that holds the globals. -/
  | name (bs : Bytes)
  | index (object key : Expr) (line : Nat)
  | call (function : Expr) (arguments : List Expr) (line : Nat)
  /-- A call of a field with the object as first argument. The field is looked up on the first
  line, the call made on the second. -/
  | invoke (object : Expr) (field : Bytes) (arguments : List Expr) (fieldLine line : Nat)
  | function (body : Body)
  | unary (op : Unary) (operand : Expr) (line : Nat)
  | binary (op : Binary) (left right : Expr) (line : Nat)
  | both (left right : Expr)
  | either (left right : Expr)
  /-- A parenthesis makes one value of many. -/
  | single (e : Expr)
  | table (items : List Item)

/-- A part of a table that is written out. -/
inductive Item where
  | positional (value : Expr)
  | keyed (key value : Expr) (line : Nat)

inductive Target where
  | variable (name : Bytes)
  | field (object key : Expr)

inductive Stmt where
  | declare (names : List Bytes) (values : List Expr)
  | declareFunction (name : Bytes) (body : Body)
  | assign (targets : List Target) (values : List Expr) (line : Nat)
  | run (call : Expr)
  | block (body : List Stmt)
  | branch (condition : Expr) (yes no : List Stmt)
  | whileLoop (condition : Expr) (body : List Stmt)
  /-- The condition sees what the body declares. -/
  | untilLoop (body : List Stmt) (condition : Expr)
  | count (name : Bytes) (first last : Expr) (step : Option Expr) (body : List Stmt) (line : Nat)
  | each (names : List Bytes) (values : List Expr) (body : List Stmt) (line : Nat)
  | leave
  | giveBack (values : List Expr)
  /-- A form of the language that is left out. -/
  | leftOut

inductive Body where
  | mk (parameters : List Bytes) (takesRest : Bool) (block : List Stmt)

end

/-- How many values without a key are put into a table together. -/
def Item.together : Nat := 50

/-- The expression of a value without a key. -/
def Item.positional? : Item → Option Expr
  | positional e => some e
  | keyed .. => none

namespace Body

def parameters : Body → List Bytes
  | mk ps _ _ => ps

def takesRest : Body → Bool
  | mk _ r _ => r

def block : Body → List Stmt
  | mk _ _ b => b

/-- A source that is not read on, since one of its forms is left out. -/
def leftOut : Body := mk [] true [.leftOut]

end Body

end BuildScript.Script
