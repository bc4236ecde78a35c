import BuildScript.Path.Style

/-!
# Patterns for one segment

A pattern is matched against a whole name: `?` takes one byte, `*` any bytes, `[abc]` one of
the listed bytes and `[!abc]` one byte that is not listed. There are no ranges and there is
no escape. A class without its `]` matches nothing, whatever stands around it.

* `parseClass`: the members of a class and where it ends;
* `scan`, `matchesPattern`: a name and a pattern, followed with one cursor each;
* `isGlob`, `isRecursive`: what a segment of a path asks for.
-/

namespace BuildScript.Glob

open BuildScript.Path

def question : UInt8 := 0x3F
def star : UInt8 := 0x2A
def openBracket : UInt8 := 0x5B
def closeBracket : UInt8 := 0x5D
def bang : UInt8 := 0x21

/-! ## Matching -/

/-- A class, as the bytes behind its `[` give it. -/
structure CharClass where
  /-- The bytes that are listed, without the `!` that negates the class. -/
  members : Bytes
  negated : Bool
  /-- How far behind the `[` its `]` is. -/
  offset : Nat
  deriving DecidableEq, Repr

/-- The class whose text follows a `[`, or nothing if it has no end. -/
def parseClass (body : Bytes) : Option CharClass :=
  let negated := body.head? == some bang
  let start := negated.toNat
  if start = body.length then none
  else
    match (body.drop start).findIdx? (· == closeBracket) with
    | none => none
    | some n =>
      let close := n + start
      some { members := (body.take close).drop start, negated, offset := close + 1 }

/-- Whether a name, from the cursor `i` on, matches a pattern from the cursor `j` on. A `*` tries
every end of the name that it can leave, the longest first, with what stands behind it. Nothing is
remembered of the ends that were tried, so that many stars may take long. -/
def scan (style : Style) (name pattern : Bytes) (i j : Nat) : Bool :=
  if _ : j < pattern.length then
    let b := pattern[j]
    if b == question then
      if i == name.length then false
      else scan style name pattern (i + 1) (j + 1)
    else if b == star then
      let rest := pattern.drop (j + 1)
      if rest.isEmpty then true
      else
        (List.range' i (name.length + 1 - i)).any fun k => scan style (name.drop k) rest 0 0
    else if b == openBracket then
      match name[i]? with
      | none => false
      | some c =>
        match parseClass (pattern.drop (j + 1)) with
        | none => false
        | some cls =>
          let found := cls.members.any (style.eqByte c)
          if found == cls.negated then false
          else scan style name pattern (i + 1) (j + cls.offset + 1)
    else
      match name[i]? with
      | none => false
      | some c =>
        if style.eqByte c b then scan style name pattern (i + 1) (j + 1)
        else false
  else i == name.length
termination_by pattern.length - j
decreasing_by all_goals simp_wf; omega

/-- Whether a name matches a pattern. -/
def matchesPattern (style : Style) (name pattern : Bytes) : Bool := scan style name pattern 0 0

/-! ## Segments of a path -/

/-- The bytes that make a segment a pattern. -/
def isWildcard (b : UInt8) : Bool := b == question || b == star || b == openBracket

/-- Whether a path or segment holds a wildcard. -/
def isGlob (segment : Bytes) : Bool := segment.any isWildcard

/-- Whether a segment is `**`. -/
def isRecursive (segment : Bytes) : Bool := segment == [star, star]

end BuildScript.Glob
