import BuildScript.Script.Reader
import BuildScript.Script.Fault

/-!
# Sources and their names

A source is known by the path that it came from. Messages show a path in full if it is short,
and the end of it otherwise.

* `chunkName`: how a path is shown;
* `compile`: the program of a source, or why there is none.
-/

namespace BuildScript.Script

/-- Paths up to this length are shown in full. -/
def longestShown : Nat := 59

/-- How much of the end of a longer path is shown. -/
def shownEnd : Nat := 56

/-- A path as messages show it. What is not valid UTF-8 in it is replaced. -/
def chunkName (path : Bytes) : Bytes :=
  let text := Utf8.scrub path
  if text.length ≤ longestShown then text
  else Bytes.ofAscii "..." ++ text.drop (text.length - shownEnd)

/-- The byte that compiled programs begin with. -/
def compiledMark : UInt8 := 0x1B

/-- The place of the first NUL in a name, counted from the mark that stands before a path. -/
def nulPosition? (path : Bytes) : Option Nat :=
  ((Utf8.scrub path).findIdx? (· == 0)).map (· + 1)

/-- The program of a source from a path, read inside of some calls. Names with a NUL and
compiled programs are refused. -/
def compile (nested : Nat) (path source : Bytes) : Except Fault Body :=
  match nulPosition? path with
  | some n =>
    .error (.runtime ("invalid name: nul byte found in provided data at position: " ++ toString n))
  | none =>
    if source.head? = some compiledMark then
      .error (.malformed none
        (Utf8.scrub path ++ Bytes.ofAscii ": bad binary format (truncated chunk)"))
    else
      match readProgram nested source with
      | .ok body => .ok body
      | .error (.misspelled m) => .error (.malformed (some ⟨chunkName path, m.line⟩) m.message)
      | .error .tooDeep => .error (.runtime "C stack overflow")
      | .error .leftOut => .ok .leftOut

end BuildScript.Script
