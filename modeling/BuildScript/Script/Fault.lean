import BuildScript.Text.Utf8

/-!
# Failures of scripts

A script fails with a value that it raised, or with a fault that one of the functions given to
it raised. A fault is a value for the script, too: it can be caught and raised again, and
arrives unchanged.

* `Fault`: the causes;
* `Fault.message`: their words.
-/

namespace BuildScript.Script

/-- What a value was expected to be. -/
inductive Wanted where
  | string
  | function
  | table
  deriving DecidableEq, Repr

/-- A value of one type where another one was wanted. -/
structure Conversion where
  source : String
  wanted : Wanted
  deriving DecidableEq, Repr

def Conversion.message (c : Conversion) : String :=
  "error converting Lua " ++ c.source ++ " to " ++
    match c.wanted with
    | .string => "string (expected string or number)"
    | .function => "function"
    | .table => "table"

/-- A place in a source: what messages call it, and a line. -/
structure Place where
  chunk : Bytes
  line : Nat
  deriving DecidableEq, Repr

def Place.text (p : Place) : Bytes :=
  p.chunk ++ Bytes.ofAscii ":" ++ Bytes.ofNat p.line ++ Bytes.ofAscii ":"

inductive Fault where
  /-- A source that is no program. A compiled program has no place. -/
  | malformed (place : Option Place) (words : Bytes)
  /-- Refused for a reason of its own. -/
  | external (text : String)
  /-- An argument of a wrong type. -/
  | badArgument (position : Nat) (c : Conversion)
  /-- Another value of a wrong type. -/
  | conversion (c : Conversion)
  /-- Raised by the script, or by what it was doing. -/
  | runtime (text : String)
  deriving DecidableEq, Repr

namespace Fault

/-- What a fault says, without what kind of fault it is. -/
def malformedText (place : Option Place) (words : Bytes) : String :=
  match place with
  | some p => Utf8.decodeLossy (p.text ++ Bytes.ofAscii " " ++ words)
  | none => Utf8.decodeLossy words

def message : Fault → String
  | malformed place words => "syntax error: " ++ malformedText place words
  | external text => text
  | badArgument position c => "bad argument #" ++ toString position ++ ": " ++ c.message
  | conversion c => c.message
  | runtime text => "runtime error: " ++ text

end Fault

end BuildScript.Script
