import BuildScript.Text.Bytes

/-!
# Paths as byte strings

A path is taken apart and put together as a string of bytes; nothing here looks at a file
system. What counts as a separator and whether case matters is a `Style`.

* `Style.split`: directory and last segment;
* `Style.splitExtension`: root and extension;
* `Style.join`, `Style.joinAll`: putting segments behind one another;
* `Style.compare`: the order in which separators (and, on one style, cases) are alike.
-/

namespace BuildScript.Path

/-- The rules of paths: separators and case. -/
inductive Style where
  /-- `/` separates, case matters. -/
  | posix
  /-- `/` and `\` separate, the case of ASCII letters does not matter, `X:\` is a root. -/
  | windows
  deriving DecidableEq, Repr

/-- A path cut in two. -/
structure Split where
  head : Bytes
  tail : Bytes
  deriving DecidableEq, Repr

namespace Style

/-! ## Bytes -/

def slash : UInt8 := 0x2F
def backslash : UInt8 := 0x5C
def colon : UInt8 := 0x3A
def dot : UInt8 := 0x2E

/-- The separator that `join` puts in. -/
def separator : Style → UInt8
  | posix => slash
  | windows => backslash

def isSep : Style → UInt8 → Bool
  | posix, b => b == slash
  | windows, b => b == slash || b == backslash

/-- The byte that stands for `b` where cases that do not matter are alike. -/
def foldCase : Style → UInt8 → UInt8
  | posix, b => b
  | windows, b => Bytes.lowerByte b

/-- Whether two bytes are alike up to case, where case does not matter. -/
def eqByte (style : Style) (a b : UInt8) : Bool :=
  style.foldCase a == style.foldCase b

/-- The byte that stands for `b` in comparisons: all separators are alike. -/
def fold (style : Style) (b : UInt8) : UInt8 :=
  if style.isSep b then slash else style.foldCase b

/-! ## Taking apart -/

/-- Whether a path starts at a root. -/
def isAbsolute (style : Style) : Bytes → Bool
  | [] => false
  | a :: rest =>
    style.isSep a ||
      match style, rest with
      | windows, b :: c :: _ => b == colon && windows.isSep c
      | _, _ => false

/-- The longest end without separators. -/
def segment (style : Style) (path : Bytes) : Bytes :=
  (path.reverse.takeWhile fun b => !style.isSep b).reverse

/-- What stands before the last segment, with the separators at its end. -/
def lead (style : Style) (path : Bytes) : Bytes :=
  (path.reverse.dropWhile fun b => !style.isSep b).reverse

/-- A path without the separators at its end. -/
def trimEnd (style : Style) (path : Bytes) : Bytes :=
  (path.reverse.dropWhile style.isSep).reverse

/-- The directory and the last segment. The separators between them go, unless nothing else
stands before them: they are a root then and stay with the directory. -/
def split (style : Style) (path : Bytes) : Split :=
  let lead := style.lead path
  let trimmed := style.trimEnd lead
  ⟨if trimmed.isEmpty then lead else trimmed, style.segment path⟩

def dirname (style : Style) (path : Bytes) : Bytes := (style.split path).head

def basename (style : Style) (path : Bytes) : Bytes := (style.split path).tail

/-- The root and the extension. The extension begins at the first dot of the last segment
that is not one of the dots the segment begins with. -/
def splitExtension (style : Style) (path : Bytes) : Split :=
  let name := style.segment path
  let dots := name.takeWhile (· == dot)
  let rest := name.dropWhile (· == dot)
  ⟨style.lead path ++ dots ++ rest.takeWhile (· != dot), rest.dropWhile (· != dot)⟩

def extension (style : Style) (path : Bytes) : Bytes := (style.splitExtension path).tail

/-- Paths have no normal form other than themselves: `.` and `..` mean what the file system
makes of them. -/
def normalize (_ : Style) (path : Bytes) : Bytes := path

/-! ## Putting together -/

/-- Whether something put behind the path needs a separator first. -/
def needsSep (style : Style) (path : Bytes) : Bool :=
  match path.getLast? with
  | none => false
  | some b => !style.isSep b

/-- One path behind another. An absolute one stands alone. -/
def join (style : Style) (base component : Bytes) : Bytes :=
  if style.isAbsolute component then component
  else if style.needsSep base then base ++ style.separator :: component
  else base ++ component

def joinAll (style : Style) (components : List Bytes) : Bytes :=
  components.foldl style.join []

/-! ## Order -/

/-- Lexicographic comparison of byte strings. -/
def compareBytes : Bytes → Bytes → Ordering
  | [], [] => .eq
  | [], _ :: _ => .lt
  | _ :: _, [] => .gt
  | a :: as, b :: bs => if a < b then .lt else if b < a then .gt else compareBytes as bs

/-- Lexicographic comparison in which all separators are alike, and cases where they do not
matter. -/
def compare (style : Style) (a b : Bytes) : Ordering :=
  compareBytes (a.map style.fold) (b.map style.fold)

end Style

end BuildScript.Path
