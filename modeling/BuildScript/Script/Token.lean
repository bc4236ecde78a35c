import BuildScript.Text.Utf8
import BuildScript.Script.Number

/-!
# Tokens of a script

A source is a string of bytes. Its tokens are names, strings, numbers and marks, the reserved
words among them; blanks and comments stand between. The list of tokens ends with the end of
the source or with the first place where no token can be read.

* `Lexeme`: a token, the line on which it ends, and its spelling for messages;
* `Misspelling`: what is wrong where there is no token;
* `lexemes`: the tokens of a source.
-/

namespace BuildScript.Script

inductive Token where
  | name (bs : Bytes)
  | string (bs : Bytes)
  | number (n : Number)
  /-- A reserved word, an operator or a bracket. -/
  | mark (text : String)
  /-- A byte that is no part of any token. -/
  | stray (b : UInt8)
  /-- The end of the source. -/
  | done

structure Lexeme where
  token : Token
  line : Nat
  spelling : Bytes

/-- A place in a source where no token can be read. -/
structure Misspelling where
  line : Nat
  message : Bytes

/-! ## Bytes -/

def isLetter (b : UInt8) : Bool :=
  (0x61 ≤ b && b ≤ 0x7A) || (0x41 ≤ b && b ≤ 0x5A) || b == 0x5F

def isNameByte (b : UInt8) : Bool := isLetter b || Bytes.isDigit b

def isLineEnd (b : UInt8) : Bool := b == 0x0A || b == 0x0D

def hyphen : UInt8 := 0x2D
def equalSign : UInt8 := 0x3D
def openSquare : UInt8 := 0x5B
def closeSquare : UInt8 := 0x5D
def openCurly : UInt8 := 0x7B
def closeCurly : UInt8 := 0x7D
def reverseSlash : UInt8 := 0x5C
def apostrophe : UInt8 := 0x27
def doubleQuote : UInt8 := 0x22

def isPrintable (b : UInt8) : Bool := 0x20 ≤ b && b ≤ 0x7E

/-- What follows a line end, of which two different bytes make one. -/
def afterLineEnd (b : UInt8) : Bytes → Bytes
  | [] => []
  | c :: rest => if isLineEnd c ∧ c ≠ b then rest else c :: rest

/-! ## Messages -/

def quoted (bs : Bytes) : Bytes := apostrophe :: (bs.untilNul ++ [apostrophe])

def endOfSource : Bytes := Bytes.ofAscii "<eof>"

/-- A token as messages name it. -/
def Lexeme.describe (l : Lexeme) : Bytes :=
  match l.token with
  | .done => endOfSource
  | .stray b =>
    if isPrintable b then quoted [b]
    else quoted (Bytes.ofAscii "<\\" ++ Bytes.ofNat b.toNat ++ Bytes.ofAscii ">")
  | _ => quoted l.spelling

/-- A message about what stands near some text. -/
def near (message : String) (place : Bytes) : Bytes :=
  Bytes.ofAscii (message ++ " near ") ++ place

/-! ## Long brackets -/

/-- The level of a long bracket whose first bracket has been read, and what follows it. The
level is the number of equal signs. -/
def longOpen? (bs : Bytes) : Option (Nat × Bytes) :=
  match bs.dropWhile (· == equalSign) with
  | b :: rest =>
    if b = openSquare then some ((bs.takeWhile (· == equalSign)).length, rest) else none
  | [] => none

/-- What follows a closing long bracket of a level whose first bracket has been read. -/
def longClose? (level : Nat) (bs : Bytes) : Option Bytes :=
  match bs.dropWhile (· == equalSign) with
  | b :: rest =>
    if b = closeSquare ∧ (bs.takeWhile (· == equalSign)).length = level then some rest else none
  | [] => none

/-- The text of a long string. -/
structure LongText where
  content : Bytes
  rest : Bytes
  line : Nat

def LongText.behind (b : UInt8) (t : LongText) : LongText := { t with content := b :: t.content }

/-- What stands in front of the closing long bracket, every line end as a newline. Without the
bracket, the line on which the source ends. -/
def longText (level : Nat) (line : Nat) : Bytes → Except Nat LongText
  | [] => .error line
  | b :: rest =>
    match if b = closeSquare then longClose? level rest else none with
    | some after => .ok ⟨[], after, line⟩
    | none =>
      if isLineEnd b then
        match rest with
        | [] => .error (line + 1)
        | c :: after =>
          if isLineEnd c ∧ c ≠ b then
            (longText level (line + 1) after).map (LongText.behind 0x0A)
          else (longText level (line + 1) (c :: after)).map (LongText.behind 0x0A)
      else (longText level line rest).map (LongText.behind b)

/-- A long string or comment behind its opening bracket. A line end right behind the bracket
does not belong to it. -/
def longBody (what : String) (level line : Nat) (bs : Bytes) : Except Misspelling LongText :=
  let (first, body) := match bs with
    | b :: rest => if isLineEnd b then (line + 1, afterLineEnd b rest) else (line, bs)
    | [] => (line, bs)
  match longText level first body with
  | .ok t => .ok t
  | .error last =>
    let message := "unfinished long " ++ what ++ " (starting at line " ++ toString line ++ ")"
    .error ⟨last, near message endOfSource⟩

/-! ## Quoted strings -/

/-- Escapes of one letter and the bytes that they stand for. -/
def shortEscape? (b : UInt8) : Option UInt8 :=
  ([(0x61, 0x07), (0x62, 0x08), (0x66, 0x0C), (0x6E, 0x0A), (0x72, 0x0D), (0x74, 0x09),
    (0x76, 0x0B), (reverseSlash, reverseSlash), (doubleQuote, doubleQuote),
    (apostrophe, apostrophe)] :
      List (UInt8 × UInt8)).lookup b

/-- The bytes of a code point below 2^31, in the pattern of UTF-8 with up to six bytes. -/
def codePoint (n : Nat) : Bytes :=
  let tail (k : Nat) : UInt8 := UInt8.ofNat (0x80 + n >>> (6 * k) % 64)
  let head (mark k : Nat) : UInt8 := UInt8.ofNat (mark + n >>> (6 * k))
  if n < 0x80 then [UInt8.ofNat n]
  else if n < 0x800 then [head 0xC0 1, tail 0]
  else if n < 0x10000 then [head 0xE0 2, tail 1, tail 0]
  else if n < 0x200000 then [head 0xF0 3, tail 2, tail 1, tail 0]
  else if n < 0x4000000 then [head 0xF8 4, tail 3, tail 2, tail 1, tail 0]
  else [head 0xFC 5, tail 4, tail 3, tail 2, tail 1, tail 0]

/-- The end of what an escape can spell. -/
def codePointEnd : Nat := 0x80000000

/-- An escape that is read: what it stands for and what follows it. A bad one has a message
and the bytes of it that have been seen. -/
inductive Escape where
  | good (bs : Bytes) (rest : Bytes)
  | bad (message : String) (seen : Bytes)

/-- A bad escape is seen up to the byte that makes it bad. -/
def Escape.badAt (message : String) (seen rest : Bytes) : Escape :=
  .bad message (seen ++ rest.take 1)

/-- An escape for a byte in base 16, behind its letter. -/
def hexEscape : Bytes → Escape
  | a :: b :: rest =>
    match Bytes.hexDigit? a, Bytes.hexDigit? b with
    | some m, some n => .good [UInt8.ofNat (16 * m + n)] rest
    | some _, none => .bad "hexadecimal digit expected" [0x78, a, b]
    | none, _ => .bad "hexadecimal digit expected" [0x78, a]
  | rest => .bad "hexadecimal digit expected" (0x78 :: rest)

/-- An escape for a byte in base 10: up to three digits. -/
def decimalEscape (bs : Bytes) : Escape :=
  let digits := (bs.take 3).takeWhile Bytes.isDigit
  let rest := bs.drop digits.length
  if Bytes.decimal digits < 256 then .good [UInt8.ofNat (Bytes.decimal digits)] rest
  else .badAt "decimal escape too large" digits rest

/-- An escape for a code point, behind its letter. -/
def codePointEscape (bs : Bytes) : Escape :=
  match bs with
  | b :: body =>
    if b = openCurly then
      let digits := body.takeWhile Number.isHexDigit
      let rest := body.drop digits.length
      let seen := 0x75 :: b :: digits
      let fits := (List.range (digits.length + 1)).takeWhile fun k =>
        Number.hexadecimal (digits.take k) < codePointEnd
      if digits.isEmpty then .badAt "hexadecimal digit expected" seen rest
      else if fits.length ≤ digits.length then
        .bad "UTF-8 value too large" (0x75 :: b :: digits.take fits.length)
      else
        match rest with
        | c :: after =>
          if c = closeCurly then .good (codePoint (Number.hexadecimal digits)) after
          else .badAt "missing '\x7d'" seen rest
        | [] => .badAt "missing '\x7d'" seen rest
    else .badAt "missing '\x7b'" [0x75] bs
  | [] => .badAt "missing '\x7b'" [0x75] bs

/-- The text of a quoted string, what follows it, and the line on which it ends. `got` is what
has been read, the last byte first. -/
def quotedText (delimiter : UInt8) :
    (fuel : Nat) → (line : Nat) → (got : Bytes) → Bytes → Except Misspelling LongText
  | 0, line, _, _ => .error ⟨line, near "unfinished string" endOfSource⟩
  | _ + 1, line, _, [] => .error ⟨line, near "unfinished string" endOfSource⟩
  | fuel + 1, line, got, b :: rest =>
    if b = delimiter then .ok ⟨got.reverse, rest, line⟩
    else if isLineEnd b then
      .error ⟨line, near "unfinished string" (quoted (delimiter :: got.reverse))⟩
    else if b = reverseSlash then
      match rest with
      | [] => .error ⟨line, near "unfinished string" endOfSource⟩
      | c :: after =>
        let escape (e : Escape) : Except Misspelling LongText :=
          match e with
          | .good bs rest => quotedText delimiter fuel line (bs.reverse ++ got) rest
          | .bad message seen =>
            let text := delimiter :: got.reverse ++ reverseSlash :: seen
            .error ⟨line, near message (quoted text)⟩
        match shortEscape? c with
        | some byte => escape (.good [byte] after)
        | none =>
          if isLineEnd c then
            quotedText delimiter fuel (line + 1) (0x0A :: got) (afterLineEnd c after)
          else if c = 0x78 then escape (hexEscape after)
          else if c = 0x75 then escape (codePointEscape after)
          else if c = 0x7A then
            let skipped := after.takeWhile Number.isBlank
            quotedText delimiter fuel (line + lineEnds skipped) got (after.drop skipped.length)
          else if Bytes.isDigit c then escape (decimalEscape rest)
          else escape (.bad "invalid escape sequence" [c])
    else quotedText delimiter fuel line (b :: got) rest
where
  /-- The line ends among blanks. -/
  lineEnds : Bytes → Nat
    | [] => 0
    | b :: rest =>
      if isLineEnd b then
        match rest with
        | c :: after =>
          if isLineEnd c ∧ c ≠ b then 1 + lineEnds after else 1 + lineEnds (c :: after)
        | [] => 1
      else lineEnds rest

/-! ## Names, numbers and marks -/

def reserved : List String :=
  ["and", "break", "do", "else", "elseif", "end", "false", "for", "function", "goto", "if", "in",
    "local", "nil", "not", "or", "repeat", "return", "then", "true", "until", "while"]

/-- A name, unless it is a reserved word. -/
def nameToken (bs : Bytes) : Token :=
  match reserved.find? fun w => Bytes.ofAscii w == bs with
  | some word => .mark word
  | none => .name bs

/-- Marks, the longer ones before those that they begin with. -/
def marks : List String :=
  ["...", "..", "==", "~=", "<=", ">=", "<<", ">>", "//", "::", "+", "-", "*", "/", "%", "^", "#",
    "&", "~", "|", "<", ">", "=", "(", ")", "\x7b", "\x7d", "[", "]", ";", ":", ",", "."]

/-- The mark at the front of a source. -/
def mark? (bs : Bytes) : Option String := marks.find? fun m => (Bytes.ofAscii m).isPrefixOf bs

/-- A number at the front of a source, whose first byte is a digit or a point. A letter that
touches it spoils it. -/
def numeral (bs : Bytes) : Bytes × Option Number × Bytes :=
  let (spelling, rest) := match Number.hexMark? bs with
    | some digits => let r := Number.numeralTail 0x70 0x50 digits; (bs.take 2 ++ r.1, r.2)
    | none => let r := Number.numeralTail 0x65 0x45 (bs.drop 1); (bs.take 1 ++ r.1, r.2)
  match rest with
  | b :: after =>
    if isLetter b then (spelling ++ [b], none, after) else (spelling, Number.read? spelling, rest)
  | [] => (spelling, Number.read? spelling, rest)

/-! ## Sources -/

/-- What stands at the front of a source. -/
inductive Piece where
  | blank (line : Nat) (rest : Bytes)
  | token (l : Lexeme) (rest : Bytes)
  | bad (m : Misspelling)

/-- A comment behind its two hyphens. -/
def comment (line : Nat) (bs : Bytes) : Piece :=
  let short : Piece := .blank line (bs.dropWhile fun b => !isLineEnd b)
  match bs with
  | b :: rest =>
    if b = openSquare then
      match longOpen? rest with
      | some (level, body) =>
        match longBody "comment" level line body with
        | .ok t => .blank t.line t.rest
        | .error m => .bad m
      | none => short
    else short
  | [] => short

/-- A string between long brackets, of which the first bracket has been read, or that bracket
alone. -/
def bracket (line : Nat) (bs : Bytes) : Piece :=
  let signs := bs.takeWhile (· == equalSign)
  match longOpen? bs with
  | some (level, body) =>
    match longBody "string" level line body with
    | .ok t =>
      let outer := openSquare :: (signs ++ [openSquare])
      let close := closeSquare :: (signs ++ [closeSquare])
      .token ⟨.string t.content, t.line, outer ++ t.content ++ close⟩ t.rest
    | .error m => .bad m
  | none =>
    if signs.isEmpty then .token ⟨.mark "[", line, [openSquare]⟩ bs
    else .bad ⟨line, near "invalid long string delimiter" (quoted (openSquare :: signs))⟩

/-- The piece at the front of a source that is not empty. -/
def piece (line : Nat) (b : UInt8) (rest : Bytes) : Piece :=
  if isLineEnd b then .blank (line + 1) (afterLineEnd b rest)
  else if Number.isBlank b then .blank line rest
  else if b = hyphen ∧ rest.head? = some hyphen then comment line rest.tail
  else if b = openSquare then bracket line rest
  else if b = doubleQuote ∨ b = apostrophe then
    match quotedText b (rest.length + 1) line [] rest with
    | .ok t => .token ⟨.string t.content, t.line, b :: (t.content ++ [b])⟩ t.rest
    | .error m => .bad m
  else if isLetter b then
    let name := b :: rest.takeWhile isNameByte
    .token ⟨nameToken name, line, name⟩ (rest.dropWhile isNameByte)
  else if Bytes.isDigit b ∨ (b = Decimal.point ∧ (rest.head?.any Bytes.isDigit)) then
    match numeral (b :: rest) with
    | (spelling, some n, rest) => .token ⟨.number n, line, spelling⟩ rest
    | (spelling, none, _) => .bad ⟨line, near "malformed number" (quoted spelling)⟩
  else
    match mark? (b :: rest) with
    | some m => .token ⟨.mark m, line, Bytes.ofAscii m⟩ ((b :: rest).drop m.length)
    | none => .token ⟨.stray b, line, [b]⟩ rest

/-- The tokens from a line on. Every piece takes at least one byte. -/
def lexemesFrom : (fuel : Nat) → (line : Nat) → Bytes → List (Except Misspelling Lexeme)
  | 0, line, _ => [.ok ⟨.done, line, []⟩]
  | _ + 1, line, [] => [.ok ⟨.done, line, []⟩]
  | fuel + 1, line, b :: rest =>
    match piece line b rest with
    | .blank line rest => lexemesFrom fuel line rest
    | .token l rest => .ok l :: lexemesFrom fuel l.line rest
    | .bad m => [.error m]

/-- The tokens of a source. The last one is its end, or there is none in its place. -/
def lexemes (source : Bytes) : List (Except Misspelling Lexeme) :=
  lexemesFrom (source.length + 1) 1 source

end BuildScript.Script
