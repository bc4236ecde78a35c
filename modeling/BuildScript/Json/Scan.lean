import BuildScript.Json.Quoted

/-!
# Reading JSON values

Values are read from the front of a string of bytes, and what follows them is left. A value
that nobody asked for is skipped: its form is checked and nothing else. A value of the wrong
kind is read far enough to tell that from a malformed one.

* `skipBlanks`, `word`: what stands between and at the start of values;
* `number`, `skipNumber`: numbers;
* `unwantedValue`: what is wrong with a value of the wrong kind;
* `skipValue`: what follows a value of any kind;
* `nextElement`, `endElements`, `elements`: lists.
-/

namespace BuildScript.Json

def isBlank (b : UInt8) : Bool := b == 0x20 || b == 0x0A || b == 0x0D || b == 0x09

def skipBlanks (bs : Bytes) : Bytes := bs.dropWhile isBlank

def commaByte : UInt8 := 0x2C
def colonByte : UInt8 := 0x3A
def openList : UInt8 := 0x5B
def closeList : UInt8 := 0x5D
def openObject : UInt8 := 0x7B
def closeObject : UInt8 := 0x7D
def minusByte : UInt8 := 0x2D
def pointByte : UInt8 := 0x2E

/-- What follows a word. -/
def word : Bytes → Bytes → Except Fault Bytes
  | [], bs => .ok bs
  | _ :: _, [] => .error .ended
  | w :: ws, b :: bs => if b = w then word ws bs else .error .malformed

/-- What follows a name for a value, by its first letter: `null`, `true` or `false`. -/
def literal? (b : UInt8) (rest : Bytes) : Option (Except Fault Bytes) :=
  if b = 0x6E then some (word (Bytes.ofAscii "ull") rest)
  else if b = 0x74 then some (word (Bytes.ofAscii "rue") rest)
  else if b = 0x66 then some (word (Bytes.ofAscii "alse") rest)
  else none

/-! ## Numbers -/

/-- The first digits of a string and what follows them. -/
def digits (bs : Bytes) : Bytes × Bytes := (bs.takeWhile Bytes.isDigit, bs.dropWhile Bytes.isDigit)

def isExponentMark (b : UInt8) : Bool := b == 0x65 || b == 0x45

/-- A sign before an exponent: whether it is a minus, and what follows it. -/
def exponentSign : Bytes → Bool × Bytes
  | [] => (false, [])
  | b :: rest =>
    if b = 0x2B then (false, rest) else if b = minusByte then (true, rest) else (false, b :: rest)

/-- The powers of ten that a double can hold end here. -/
def maxPower : Nat := 308

/-- The largest whole number that is kept exactly. -/
def maxWhole : Nat := 18446744073709551615

/-- The largest exponent that is told from its neighbours. -/
def maxExponent : Nat := 2147483647

/-- The digits of a number as far as they are kept: the value of the leading ones, how many
whole ones were left out, and how many of those behind the point were taken. -/
structure Kept where
  value : Nat
  leftOut : Nat
  places : Nat
  deriving DecidableEq, Repr

/-- Takes whole digits while their value can be kept exactly. -/
def keepWhole (ds : Bytes) : Kept :=
  ds.foldl (fun k d =>
    let next := 10 * k.value + (d.toNat - 0x30)
    if k.leftOut = 0 ∧ next ≤ maxWhole then { k with value := next }
    else { k with leftOut := k.leftOut + 1 }) ⟨0, 0, 0⟩

/-- Takes digits behind the point while the value can be kept exactly. -/
def keepPlaces : Kept → Bytes → Kept
  | k, [] => k
  | k, d :: ds =>
    let next := 10 * k.value + (d.toNat - 0x30)
    if next ≤ maxWhole then keepPlaces { k with value := next, places := k.places + 1 } ds else k

/-- Whether the kept digits times a power of ten are a double. -/
def inRange (k : Kept) (exponent : Int) : Bool :=
  let power := exponent + k.leftOut - k.places
  if power < 0 then true
  else if power.toNat ≤ maxPower then
    (Float.ofNat k.value * Float.ofScientific 1 false power.toNat).isFinite
  else k.value = 0

/-- The exponent of a number and what follows it. `none` stands for one that is so large that
only the sign matters. -/
def exponent (bs : Bytes) : Except Fault ((Bool × Option Nat) × Bytes) :=
  let (negative, rest) := exponentSign bs
  match digits rest with
  | ([], []) => .error .ended
  | ([], _ :: _) => .error .malformed
  | (ds, rest) =>
    let n := Bytes.decimal ds
    .ok ((negative, if n ≤ maxExponent then some n else none), rest)

/-- Checks the size of a number with the exponent that follows its digits, if one does. -/
def scaled (k : Kept) (bs : Bytes) : Except Fault Bytes :=
  match bs with
  | [] => if inRange k 0 then .ok [] else .error .malformed
  | b :: rest =>
    if isExponentMark b then
      (exponent rest).bind fun
        | ((negative, some n), rest) =>
          if inRange k (if negative then -n else n) then .ok rest else .error .malformed
        | ((negative, none), rest) =>
          if negative || k.value == 0 then .ok rest else .error .malformed
    else if inRange k 0 then .ok (b :: rest)
    else .error .malformed

/-- What follows a number without its sign: whole digits without a needless zero, places behind
a point, an exponent. It has to be a double. -/
def number (bs : Bytes) : Except Fault Bytes :=
  match digits bs with
  | ([], []) => .error .ended
  | ([], _ :: _) => .error .malformed
  | (d :: ds, rest) =>
    if d = 0x30 ∧ !ds.isEmpty then .error .malformed
    else
      let k := keepWhole (d :: ds)
      match rest with
      | [] => scaled k []
      | b :: after =>
        if b = pointByte then
          match digits after with
          | ([], []) => .error .ended
          | ([], _ :: _) => .error .malformed
          | (ps, rest) => scaled (keepPlaces k ps) rest
        else scaled k (b :: after)

/-- What follows the exponent of a number whose value does not matter. -/
def skipExponent (bs : Bytes) : Except Fault Bytes :=
  match digits (exponentSign bs).2 with
  | ([], _) => .error .malformed
  | (_, rest) => .ok rest

/-- What follows a number whose value does not matter, without its sign. An end in its middle
is like any other byte that cannot stand there. -/
def skipNumber (bs : Bytes) : Except Fault Bytes :=
  match digits bs with
  | ([], _) => .error .malformed
  | (d :: ds, rest) =>
    if d = 0x30 ∧ !ds.isEmpty then .error .malformed
    else
      let fraction : Except Fault Bytes :=
        match rest with
        | [] => .ok []
        | b :: after =>
          if b = pointByte then
            match digits after with
            | ([], _) => .error .malformed
            | (_, rest) => .ok rest
          else .ok (b :: after)
      fraction.bind fun
        | [] => .ok []
        | b :: after => if isExponentMark b then skipExponent after else .ok (b :: after)

/-! ## Values of the wrong kind -/

/-- What is wrong where a value of another kind was wanted: that, unless the value itself is
not well formed. -/
def unwantedValue (bs : Bytes) : Fault :=
  let fault (r : Except Fault Bytes) : Fault :=
    match r with
    | .ok _ => .unwanted
    | .error e => e
  match bs with
  | [] => .malformed
  | b :: rest =>
    match literal? b rest with
    | some r => fault r
    | none =>
      if b = minusByte then fault (number rest)
      else if Bytes.isDigit b then fault (number (b :: rest))
      else if b = quoteByte then fault ((text rest).map Prod.snd)
      else if b = openList ∨ b = openObject then .unwanted
      else .malformed

/-! ## Values that do not matter -/

/-- What a skipped value stands in. -/
inductive Enclosing where
  | list
  | object
  deriving DecidableEq, Repr

def Enclosing.close : Enclosing → UInt8
  | list => closeList
  | object => closeObject

/-- The key of a skipped member and its colon. -/
def skipKey (bs : Bytes) : Except Fault Bytes :=
  match skipBlanks bs with
  | [] => .error .ended
  | b :: rest =>
    if b = quoteByte then
      (skipString rest).bind fun rest =>
        match skipBlanks rest with
        | [] => .error .ended
        | b :: rest => if b = colonByte then .ok rest else .error .malformed
    else .error .malformed

/-- A skipped value that is no list and no object. -/
def skipScalar (b : UInt8) (rest : Bytes) : Except Fault Bytes :=
  match literal? b rest with
  | some r => r
  | none =>
    if b = minusByte then skipNumber rest
    else if Bytes.isDigit b then skipNumber (b :: rest)
    else if b = quoteByte then skipString rest
    else .error .malformed

/-- Goes on after a value, or after an opening bracket, inside what encloses it: closes as
many lists and objects as end there, and stops before the next value. The last argument tells
whether a value was just read. -/
def leave : List Enclosing → Bool → Bytes → Except Fault (List Enclosing × Bytes)
  | [], _, bs => .ok ([], bs)
  | e :: outer, afterValue, bs =>
    match skipBlanks bs with
    | [] => .error .ended
    | b :: rest =>
      if b = e.close then leave outer true rest
      else
        let next : Except Fault Bytes :=
          if !afterValue then .ok (b :: rest)
          else if b = commaByte then .ok rest
          else .error .malformed
        next.bind fun bs =>
          match e with
          | .list => .ok (e :: outer, bs)
          | .object => (skipKey bs).map (e :: outer, ·)

/-- Skips values until all that encloses them is closed. -/
def skipValues : (fuel : Nat) → List Enclosing → Bytes → Except Fault Bytes
  | 0, _, _ => .error .ended
  | fuel + 1, enclosing, bs =>
    match skipBlanks bs with
    | [] => .error .ended
    | b :: rest =>
      let inside : Except Fault (List Enclosing × Bytes) :=
        if b = openList then leave (.list :: enclosing) false rest
        else if b = openObject then leave (.object :: enclosing) false rest
        else (skipScalar b rest).bind (leave enclosing true)
      inside.bind fun
        | ([], rest) => .ok rest
        | (enclosing, rest) => skipValues fuel enclosing rest

/-- What follows a value that does not matter, however deep it is. Every round takes at least
one byte. -/
def skipValue (bs : Bytes) : Except Fault Bytes := skipValues (bs.length + 1) [] bs

/-! ## Lists -/

/-- Where the next element of a list begins, if there is one. Without one, the closing bracket
is left. -/
def nextElement (first : Bool) (bs : Bytes) : Except Fault (Option Bytes) :=
  match skipBlanks bs with
  | [] => .error .ended
  | b :: rest =>
    if b = closeList then .ok none
    else if first then .ok (some (b :: rest))
    else if b = commaByte then
      match skipBlanks rest with
      | [] => .error .ended
      | b :: rest => if b = closeList then .error .malformed else .ok (some (b :: rest))
    else .error .malformed

/-- What follows the closing bracket of a list that has to end here. -/
def endElements (bs : Bytes) : Except Fault Bytes :=
  match skipBlanks bs with
  | [] => .error .ended
  | b :: rest => if b = closeList then .ok rest else .error .malformed

/-- The elements of a list up to its closing bracket, and what follows it. -/
def elements {α : Type} (element : Bytes → Except Fault (α × Bytes)) :
    (fuel : Nat) → (first : Bool) → Bytes → Except Fault (List α × Bytes)
  | 0, _, _ => .error .ended
  | fuel + 1, first, bs =>
    (nextElement first bs).bind fun
      | none => (endElements bs).map ([], ·)
      | some bs =>
        (element bs).bind fun (a, rest) =>
          (elements element fuel false rest).map fun more => (a :: more.1, more.2)

/-- A list of values. Every element takes at least one byte. -/
def list {α : Type} (element : Bytes → Except Fault (α × Bytes)) (bs : Bytes) :
    Except Fault (List α × Bytes) :=
  match skipBlanks bs with
  | [] => .error .ended
  | b :: rest =>
    if b = openList then elements element (rest.length + 1) true rest
    else .error (unwantedValue (b :: rest))

/-- A string. -/
def string (bs : Bytes) : Except Fault (String × Bytes) :=
  match skipBlanks bs with
  | [] => .error .ended
  | b :: rest => if b = quoteByte then text rest else .error (unwantedValue (b :: rest))

/-- A whole document: nothing but blanks may follow the value. -/
def document {α : Type} (value : Bytes → Except Fault (α × Bytes)) (bs : Bytes) :
    Except Fault α :=
  (value bs).bind fun (a, rest) => if (skipBlanks rest).isEmpty then .ok a else .error .malformed

end BuildScript.Json
