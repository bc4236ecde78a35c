import BuildScript.Text.Bytes

/-!
# What messages call a value

A message about a value or a function tells where it came from, if that is one variable, field
or constant.

* `Origin`: what it is that a value came from;
* `Subject`: that, and its name.
-/

namespace BuildScript.Script

inductive Origin where
  /-- A variable of the function under way. -/
  | ownVariable
  /-- A variable of a function around it. -/
  | outerVariable
  | globalVariable
  | field
  | method
  /-- A text that is written in the script. -/
  | constant
  /-- The function that a loop calls. -/
  | iterator
  /-- A function that stands in for something else. -/
  | stand
  deriving DecidableEq, Repr

def Origin.word : Origin → String
  | ownVariable => "local"
  | outerVariable => "upvalue"
  | globalVariable => "global"
  | field => "field"
  | method => "method"
  | constant => "constant"
  | iterator => "for iterator"
  | stand => "metamethod"

structure Subject where
  origin : Origin
  name : Bytes
  deriving DecidableEq, Repr

namespace Subject

/-- The function that a loop calls. -/
def iterator : Subject := ⟨.iterator, Bytes.ofAscii "for iterator"⟩

/-- The function that stands in for missing fields. -/
def standIn : Subject := ⟨.stand, Bytes.ofAscii "index"⟩

/-- What a message says of a value behind its type. The name ends at its first NUL. -/
def text : Option Subject → Bytes
  | none => []
  | some s =>
    Bytes.ofAscii (" (" ++ s.origin.word ++ " '") ++ s.name.untilNul ++ Bytes.ofAscii "')"

end Subject

end BuildScript.Script
