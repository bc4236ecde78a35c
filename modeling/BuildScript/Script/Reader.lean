import BuildScript.Script.Token
import BuildScript.Script.Folding

/-!
# Reading programs

The tokens of a source are put together by recursive descent: one function for each form, all
of them on a cursor that stands on one token. The first token that does not fit ends it, with
the line on which that token ends. Labels, jumps to them and variables that are closed are left
out: where one of them is reached, the source is not read on.

A look-up is done when it is known what becomes of its value, on the line that reading has come
to by then. Until then it is a draft.

* `Cursor`, `Reader`: the place among the tokens, and what reads on from it;
* `Scope`: what a name or a form means where it stands, and how much room there is;
* `Draft`: an expression whose last look-up may still wait for its line;
* `readProgram`: the program of a source.
-/

namespace BuildScript.Script

/-- A token and those behind it. -/
structure Cursor where
  current : Lexeme
  ahead : List (Except Misspelling Lexeme)
  /-- The line on which the token before the current one ends. -/
  lastLine : Nat
  /-- The line of the first `break` outside of a loop in the function under way. -/
  looseBreak : Option Nat

/-- Why a source is no program. -/
inductive Refusal where
  | misspelled (m : Misspelling)
  /-- Its forms are nested too deeply. -/
  | tooDeep
  /-- It may be one, with a form that is left out. -/
  | leftOut

abbrev Reader := StateT Cursor (Except Refusal)

/-- What a declared name stands for. -/
inductive Meaning where
  | variable
  /-- A variable that keeps its first value. -/
  | fixed
  /-- No variable, but the value itself. -/
  | constant (e : Expr)

def Meaning.isConstant : Meaning → Bool
  | constant _ => true
  | _ => false

/-- What surrounds a form: the names in reach, the nearest one first, what the function around
it allows, and how much of the room there is has been taken. -/
structure Scope where
  names : List (Bytes × Meaning)
  takesRest : Bool
  inLoop : Bool
  /-- The line of the function under way, if it is not the whole source. -/
  openLine : Option Nat
  /-- How many forms and calls surround this one. -/
  depth : Nat
  /-- How many names the function under way has declared. -/
  declared : Nat
  /-- How many values the function under way holds at once. -/
  held : Nat

namespace Scope

/-- How many forms and calls can surround one. -/
def maxDepth : Nat := 200

/-- How many names a function can have declared at a place. -/
def maxDeclared : Nat := 200

/-- How many values a function cannot hold at once any more. -/
def tooManyHeld : Nat := 255

/-- What surrounds a whole source that is read inside of some calls. -/
def outermost (nested : Nat) : Scope := ⟨[], true, false, none, nested, 0, 0⟩

def loop (s : Scope) : Scope := { s with inLoop := true }

/-- What is in reach behind a statement, outside of which there was more room. -/
def behind (inside outside : Scope) : Scope :=
  { inside with depth := outside.depth, inLoop := outside.inLoop }

end Scope

/-- A form that has been read. The last look-up of one waits for the line on which it is
done. -/
inductive Draft where
  | ready (e : Expr)
  | access (object key : Expr)

namespace Draft

/-- The expression whose last look-up is done on a line. -/
def onLine (line : Nat) : Draft → Expr
  | ready e => e
  | access object key => .index object key line

/-- Whether a value takes room of its own: a variable and a number stay where they are. -/
def takesRoom : Draft → Bool
  | ready (.name _) | ready (.number _) => false
  | _ => true

end Draft

namespace Reader

/-! ## Single tokens -/

def token : Reader Token := do return (← get).current.token

def line : Reader Nat := do return (← get).current.line

def lastLine : Reader Nat := do return (← get).lastLine

/-- Goes on to the next token. -/
def advance : Reader Unit := do
  let c ← get
  match c.ahead with
  | [] => return ()
  | .error m :: _ => throw (.misspelled m)
  | .ok l :: rest => set { c with current := l, ahead := rest, lastLine := c.current.line }

/-- Fails at the current token, which the message names. -/
def failNear {α : Type} (message : String) : Reader α := do
  let l := (← get).current
  throw (.misspelled ⟨l.line, near message l.describe⟩)

/-- Fails at the current token with a message that does not name it. -/
def failWith {α : Type} (message : Bytes) : Reader α := do
  throw (.misspelled ⟨← line, message⟩)

def isMark (text : String) : Token → Bool
  | .mark m => m == text
  | _ => false

def atMark (text : String) : Reader Bool := do return isMark text (← token)

/-- Passes a mark, if it is there. -/
def skip (text : String) : Reader Bool := do
  if ← atMark text then
    advance
    return true
  else return false

def expected {α : Type} (text : String) : Reader α := failNear ("'" ++ text ++ "' expected")

/-- Passes a mark that has to be there. -/
def pass (text : String) : Reader Unit := do
  if ← skip text then return () else expected text

/-- Passes the mark that closes what was opened by another one on some line. -/
def close (text opener : String) (openLine : Nat) : Reader Unit := do
  if ← skip text then return ()
  else if (← line) = openLine then expected text
  else
    let place := "'" ++ opener ++ "' at line " ++ toString openLine
    failNear ("'" ++ text ++ "' expected (to close " ++ place ++ ")")

def name : Reader Bytes := do
  match ← token with
  | .name bs =>
    advance
    return bs
  | _ => failNear "<name> expected"

/-- Whether a block ends at the current token. -/
def atBlockEnd : Reader Bool := do
  match ← token with
  | .done => return true
  | .mark m => return m == "else" || m == "elseif" || m == "end" || m == "until"
  | _ => return false

/-! ## Operators -/

def unary? : Token → Option Unary
  | .mark "not" => some .not
  | .mark "-" => some .negate
  | .mark "#" => some .length
  | .mark "~" => some .complement
  | _ => none

/-- Operators between two operands. -/
inductive Operator where
  | plain (op : Binary)
  | both
  | either

/-- How strongly an operator binds to its left and to its right. -/
structure Binding where
  op : Operator
  left : Nat
  right : Nat

/-- The operator of a token. -/
def operator? : Token → Option Binding
  | .mark "+" => some ⟨.plain .add, 10, 10⟩
  | .mark "-" => some ⟨.plain .sub, 10, 10⟩
  | .mark "*" => some ⟨.plain .mul, 11, 11⟩
  | .mark "%" => some ⟨.plain .mod, 11, 11⟩
  | .mark "^" => some ⟨.plain .pow, 14, 13⟩
  | .mark "/" => some ⟨.plain .div, 11, 11⟩
  | .mark "//" => some ⟨.plain .floorDiv, 11, 11⟩
  | .mark "&" => some ⟨.plain .bitAnd, 6, 6⟩
  | .mark "|" => some ⟨.plain .bitOr, 4, 4⟩
  | .mark "~" => some ⟨.plain .bitXor, 5, 5⟩
  | .mark "<<" => some ⟨.plain .shiftLeft, 7, 7⟩
  | .mark ">>" => some ⟨.plain .shiftRight, 7, 7⟩
  | .mark ".." => some ⟨.plain .concat, 9, 8⟩
  | .mark "==" => some ⟨.plain .eq, 3, 3⟩
  | .mark "~=" => some ⟨.plain .ne, 3, 3⟩
  | .mark "<" => some ⟨.plain .lt, 3, 3⟩
  | .mark "<=" => some ⟨.plain .le, 3, 3⟩
  | .mark ">" => some ⟨.plain .gt, 3, 3⟩
  | .mark ">=" => some ⟨.plain .ge, 3, 3⟩
  | .mark "and" => some ⟨.both, 2, 2⟩
  | .mark "or" => some ⟨.either, 1, 1⟩
  | _ => none

/-- How strongly an operator before its operand binds. -/
def unaryBinding : Nat := 12

def isComparison : Binary → Bool
  | .eq | .ne | .lt | .le | .gt | .ge => true
  | _ => false

/-- Puts two operands together. A comparison fails on the line where its second operand ends,
and a chain of concatenations on that of its last operator. -/
def combine (op : Operator) (left right : Expr) (line lastLine : Nat) : Expr :=
  match op with
  | .both => .bothOf left right
  | .either => .eitherOf left right
  | .plain .concat =>
    match right with
    | .binary .concat _ _ inner => .binary .concat left right inner
    | _ => .binary .concat left right line
  | .plain op => .binaryOf op left right (if isComparison op then lastLine else line)

/-- How many values the first operand of an operator keeps while the second one is read. -/
def keeps (op : Operator) (left : Draft) : Nat :=
  match op with
  | .both | .either => 0
  | .plain .concat => 1
  | .plain _ => if left.takesRoom then 1 else 0

def isCall : Draft → Bool
  | .ready (.call ..) | .ready (.invoke ..) => true
  | _ => false

/-- Whether the token behind the current one is an equal sign. It has to be a token, and
reading has come to its line then. -/
def beforeEqual : Reader Bool := do
  match (← get).ahead with
  | .ok l :: _ =>
    modify fun c => { c with current := { c.current with line := l.line } }
    return isMark "=" l.token
  | .error m :: _ => throw (.misspelled m)
  | [] => return false

/-! ## Names and room -/

/-- What a name stands for. One that is not declared is a field of the table of globals. -/
def resolve (s : Scope) (n : Bytes) : Draft :=
  match s.names.lookup n with
  | some (.constant e) => .ready e
  | some _ => .ready (.name n)
  | none =>
    if n = environmentName then .ready (.name n) else .access (.name environmentName) (.string n)

/-- One form further inside. -/
def enter (s : Scope) : Reader Scope :=
  if s.depth + 1 < Scope.maxDepth then return { s with depth := s.depth + 1 }
  else throw .tooDeep

/-- Room for more values. -/
def hold (s : Scope) (count : Nat) : Reader Scope :=
  if s.held + count < Scope.tooManyHeld then return { s with held := s.held + count }
  else failNear "function or expression needs too many registers"

/-- Room for one more name. -/
def admitName (s : Scope) : Reader Scope :=
  if s.declared < Scope.maxDeclared then return { s with declared := s.declared + 1 }
  else
    let place := match s.openLine with
      | some l => "function at line " ++ toString l
      | none => "main function"
    let limit := toString Scope.maxDeclared
    failNear ("too many local variables (limit is " ++ limit ++ ") in " ++ place)

/-- Room for names that a loop needs for itself. -/
def admitHidden (s : Scope) : (count : Nat) → Reader Scope
  | 0 => return s
  | count + 1 => do admitHidden (← admitName s) count

/-- A name in reach for what follows, with a value of its own unless it is a constant. -/
def declare (s : Scope) (n : Bytes) (m : Meaning) : Reader Scope := do
  let s ← if m.isConstant then pure s else hold s 1
  return { s with names := (n, m) :: s.names }

def declareVariables (s : Scope) : List Bytes → Reader Scope
  | [] => return s
  | n :: names => do declareVariables (← declare s n .variable) names

/-- The target of an assignment that begins with a token. Constants are refused. -/
def targetOf (s : Scope) (first : Token) : Draft → Reader Target
  | .access object key => return .field object key
  | .ready e =>
    match first, e with
    | .name n, .name _ => do
      match s.names.lookup n with
      | some .fixed => refuse n
      | _ => return .variable n
    | .name n, e => if e.isConstant then refuse n else failNear "syntax error"
    | _, _ => failNear "syntax error"
where
  refuse (n : Bytes) : Reader Target :=
    failWith (Bytes.ofAscii "attempt to assign to const variable " ++ quoted n)

/-- What is said when the tokens run on for too long. It is not reached. -/
def exhausted {α : Type} : Reader α := failNear "too many nested forms"

/-- What may become of a local name. -/
inductive Attribute where
  | plain
  | const
  deriving DecidableEq, Repr

/-- The attribute of a local name. -/
def attributeOf : Reader Attribute := do
  if ← skip "<" then
    let a ← name
    pass ">"
    if a = Bytes.ofAscii "const" then return .const
    else if a = Bytes.ofAscii "close" then throw .leftOut
    else failWith (Bytes.ofAscii "unknown attribute " ++ quoted a)
  else return .plain

/-- What a local name stands for. -/
def Attribute.meaning : Attribute → Meaning
  | plain => .variable
  | const => .fixed

/-- What the last of some local names stands for. With a constant behind it and the attribute
for that, it is no variable. -/
def lastMeaning (a : Attribute) (names values : Nat) : Draft → Meaning
  | .ready e => if a = .const ∧ names = values ∧ e.isConstant then .constant e else a.meaning
  | .access .. => a.meaning

/-- Local names with their attributes, the last one with a meaning of its own. -/
def declareLocals (s : Scope) (last : Meaning) : List (Bytes × Attribute) → Reader Scope
  | [] => return s
  | [(n, _)] => declare s n last
  | (n, a) :: rest => do declareLocals (← declare s n a.meaning) last rest

/-! ## Forms -/

mutual

/-- Operands and operators that bind more strongly than a limit. -/
def expr (fuel : Nat) (s : Scope) (limit : Nat) : Reader Draft :=
  match fuel with
  | 0 => exhausted
  | fuel + 1 => do
    let s ← enter s
    let left ← match unary? (← token) with
      | some op =>
        let l ← line
        advance
        let operand ← expr fuel s unaryBinding
        pure (.ready (.unaryOf op (operand.onLine (← lastLine)) l))
      | none => simple fuel s
    operators fuel s limit left

/-- Operators behind a first operand. -/
def operators (fuel : Nat) (s : Scope) (limit : Nat) (left : Draft) : Reader Draft :=
  match fuel with
  | 0 => exhausted
  | fuel + 1 => do
    match operator? (← token) with
    | some b =>
      if limit < b.left then
        let l ← line
        advance
        let first := left.onLine (← lastLine)
        let right ← expr fuel (← hold s (keeps b.op left)) b.right
        let last ← lastLine
        operators fuel s limit (.ready (combine b.op first (right.onLine last) l last))
      else return left
    | none => return left

/-- An operand. -/
def simple (fuel : Nat) (s : Scope) : Reader Draft :=
  match fuel with
  | 0 => exhausted
  | fuel + 1 => do
    match ← token with
    | .number n => do advance; return .ready (.number n)
    | .string bs => do advance; return .ready (.string bs)
    | .mark "nil" => do advance; return .ready .nil
    | .mark "true" => do advance; return .ready (.bool true)
    | .mark "false" => do advance; return .ready (.bool false)
    | .mark "..." =>
      if s.takesRest then do advance; return .ready .rest
      else failNear "cannot use '...' outside a vararg function"
    | .mark "\x7b" => return .ready (← table fuel s)
    | .mark "function" => do
      advance
      return .ready (.function (← body fuel s [] (← line)))
    | _ => suffixed fuel s

/-- A name or a parenthesis with fields and calls behind it. -/
def suffixed (fuel : Nat) (s : Scope) : Reader Draft :=
  match fuel with
  | 0 => exhausted
  | fuel + 1 => do
    match ← token with
    | .name n => do
      advance
      suffixes fuel s (resolve s n)
    | .mark "(" => do
      let l ← line
      advance
      let e ← expr fuel s 0
      close ")" "(" l
      suffixes fuel s (.ready (e.onLine (← lastLine)).one)
    | _ => failNear "unexpected symbol"

/-- Fields and calls behind an object. -/
def suffixes (fuel : Nat) (s : Scope) (object : Draft) : Reader Draft :=
  match fuel with
  | 0 => exhausted
  | fuel + 1 => do
    let o := object.onLine (← lastLine)
    match ← token with
    | .mark "." => do
      advance
      suffixes fuel s (.access o (.string (← name)))
    | .mark "[" => do
      advance
      let key ← expr fuel (← hold s (if object.takesRoom then 1 else 0)) 0
      let k := key.onLine (← lastLine)
      pass "]"
      suffixes fuel s (.access o k)
    | .mark ":" => do
      advance
      let field ← name
      let fieldLine ← lastLine
      let l ← line
      let given ← arguments fuel (← hold s 2)
      suffixes fuel s (.ready (.invoke (object.onLine fieldLine) field given fieldLine l))
    | .mark "(" | .mark "\x7b" | .string _ => do
      let l ← line
      let given ← arguments fuel (← hold s 1)
      suffixes fuel s (.ready (.call o given l))
    | _ => return object

/-- The arguments of a call: a list in parentheses, a table or a string. -/
def arguments (fuel : Nat) (s : Scope) : Reader (List Expr) :=
  match fuel with
  | 0 => exhausted
  | fuel + 1 => do
    match ← token with
    | .string bs => do
      advance
      return [.string bs]
    | .mark "\x7b" => return [← table fuel s]
    | .mark "(" => do
      let l ← line
      advance
      if ← skip ")" then return []
      let (es, s, last) ← exprs fuel s
      close ")" "(" l
      let e := last.onLine (← lastLine)
      if !e.isMany then let _ ← hold s 1
      return es ++ [e]
    | _ => failNear "function arguments expected"

/-- Expressions with commas between them. All but the last one are worked out when their comma
has been passed, and take room. -/
def exprs (fuel : Nat) (s : Scope) : Reader (List Expr × Scope × Draft) :=
  match fuel with
  | 0 => exhausted
  | fuel + 1 => do
    let e ← expr fuel s 0
    if ← skip "," then
      let first := e.onLine (← lastLine)
      let (es, s, last) ← exprs fuel (← hold s 1)
      return (first :: es, s, last)
    else return ([], s, e)

/-- Expressions of which the last one is worked out when it has been read. -/
def values (fuel : Nat) (s : Scope) : Reader (List Expr) :=
  match fuel with
  | 0 => exhausted
  | fuel + 1 => do
    let (es, s, last) ← exprs fuel s
    let e := last.onLine (← lastLine)
    if !e.isMany then let _ ← hold s 1
    return es ++ [e]

/-- A single expression that is worked out when it has been read. -/
def single (fuel : Nat) (s : Scope) : Reader Expr :=
  match fuel with
  | 0 => exhausted
  | fuel + 1 => do
    let e ← expr fuel s 0
    return e.onLine (← lastLine)

/-- A table that is written out. -/
def table (fuel : Nat) (s : Scope) : Reader Expr :=
  match fuel with
  | 0 => exhausted
  | fuel + 1 => do
    let l ← line
    pass "\x7b"
    let (parts, last) ← items fuel (← hold s 1) 0
    close "\x7d" "\x7b" l
    match last with
    | some d => return .table (parts ++ [.positional (d.onLine (← lastLine))])
    | none => return .table parts

/-- The parts of a table up to its closing bracket, and the last value without a key if nothing
follows it. Values without a key are worked out when what follows them has been reached, and
put into the table when there are enough of them. -/
def items (fuel : Nat) (s : Scope) (waiting : Nat) : Reader (List Item × Option Draft) :=
  match fuel with
  | 0 => exhausted
  | fuel + 1 => do
    if ← atMark "\x7d" then return ([], none)
    match ← item fuel (← hold s waiting) with
    | .inl part =>
      if ← separator then
        let (parts, last) ← items fuel s waiting
        return (part :: parts, last)
      else return ([part], none)
    | .inr value =>
      if (← separator) && !(← atMark "\x7d") then
        let part := Item.positional (value.onLine (← lastLine))
        let (parts, last) ← items fuel s ((waiting + 1) % Item.together)
        return (part :: parts, last)
      else return ([], some value)
where
  separator : Reader Bool := do
    if ← skip "," then return true else skip ";"

/-- A part of a table: one with a key, or a value. -/
def item (fuel : Nat) (s : Scope) : Reader (Item ⊕ Draft) :=
  match fuel with
  | 0 => exhausted
  | fuel + 1 => do
    match ← token with
    | .name n =>
      if ← beforeEqual then
        advance
        advance
        let value ← single fuel s
        return .inl (.keyed (.string n) value (← lastLine))
      else return .inr (← expr fuel s 0)
    | .mark "[" => do
      advance
      let key ← single fuel s
      pass "]"
      pass "="
      let value ← single fuel (← hold s (if (Draft.ready key).takesRoom then 1 else 0))
      return .inl (.keyed key value (← lastLine))
    | _ => return .inr (← expr fuel s 0)

/-- A function behind its name, with some parameters before those that are written. -/
def body (fuel : Nat) (s : Scope) (first : List Bytes) (openLine : Nat) : Reader Body :=
  match fuel with
  | 0 => exhausted
  | fuel + 1 => do
    let inside : Scope :=
      { s with openLine := some openLine, declared := first.length, held := 0, inLoop := false }
    pass "("
    let (written, takesRest, inside) ←
      if ← atMark ")" then pure ([], false, inside) else parameters fuel inside
    pass ")"
    let names := first ++ written
    let inside ← declareVariables { inside with takesRest } names
    let outer := (← get).looseBreak
    modify fun c => { c with looseBreak := none }
    let (stmts, _) ← block fuel inside
    close "end" "function" openLine
    refuseLooseBreak
    modify fun c => { c with looseBreak := outer }
    return .mk names takesRest stmts

/-- The parameters of a function, of which there is at least one. -/
def parameters (fuel : Nat) (s : Scope) : Reader (List Bytes × Bool × Scope) :=
  match fuel with
  | 0 => exhausted
  | fuel + 1 => do
    match ← token with
    | .mark "..." => do
      advance
      return ([], true, s)
    | .name n => do
      advance
      let s ← admitName s
      if ← skip "," then
        let (rest, takesRest, s) ← parameters fuel s
        return (n :: rest, takesRest, s)
      else return ([n], false, s)
    | _ => failNear "<name> or '...' expected"

/-- Fails if a function ended with a `break` outside of a loop. -/
def refuseLooseBreak : Reader Unit := do
  match (← get).looseBreak with
  | none => return ()
  | some l => failWith (Bytes.ofAscii ("break outside a loop at line " ++ toString l))

/-- The statements of a block, and the names in reach behind them. -/
def block (fuel : Nat) (s : Scope) : Reader (List Stmt × Scope) :=
  match fuel with
  | 0 => exhausted
  | fuel + 1 => do
    if ← atBlockEnd then return ([], s)
    if ← skip ";" then return ← block fuel s
    if ← skip "return" then
      let inside ← enter s
      let given ←
        if (← atBlockEnd) || (← atMark ";") then pure [] else values fuel inside
      let _ ← skip ";"
      return ([.giveBack given], s)
    let (stmt, inside) ← statement fuel (← enter s)
    let (rest, s) ← block fuel (inside.behind s)
    return (stmt :: rest, s)

/-- The statements of a block of its own. -/
def inner (fuel : Nat) (s : Scope) : Reader (List Stmt) :=
  match fuel with
  | 0 => exhausted
  | fuel + 1 => do
    let (stmts, _) ← block fuel s
    return stmts

def statement (fuel : Nat) (s : Scope) : Reader (Stmt × Scope) :=
  match fuel with
  | 0 => exhausted
  | fuel + 1 => do
    let l ← line
    match ← token with
    | .mark "if" => do
      advance
      return (← branch fuel s l, s)
    | .mark "while" => do
      advance
      let condition ← single fuel s
      pass "do"
      let stmts ← inner fuel s.loop
      close "end" "while" l
      return (.whileLoop condition stmts, s)
    | .mark "do" => do
      advance
      let stmts ← inner fuel s
      close "end" "do" l
      return (.block stmts, s)
    | .mark "for" => do
      advance
      return (← forLoop fuel s l, s)
    | .mark "repeat" => do
      advance
      let (stmts, inside) ← block fuel s.loop
      close "until" "repeat" l
      let condition ← single fuel (inside.behind s)
      return (.untilLoop stmts condition, s)
    | .mark "function" => do
      advance
      let n ← name
      let (target, first) ← functionName fuel s (resolve s n)
      let f ← body fuel s first l
      return (.assign [← targetOf s (.name n) target] [.function f] l, s)
    | .mark "local" => do
      advance
      if ← skip "function" then
        let n ← name
        let s ← declare (← admitName s) n .variable
        let f ← body fuel s [] (← line)
        return (.declareFunction n f, s)
      else
        let (names, s) ← localNames fuel s
        let last := (names.map Prod.snd).getLastD .plain
        if ← skip "=" then
          let (es, inside, value) ← exprs fuel s
          let e := value.onLine (← lastLine)
          if !e.isMany then let _ ← hold inside 1
          let meaning := lastMeaning last names.length (es.length + 1) value
          let s ← declareLocals s meaning names
          return (.declare (names.map Prod.fst) (es ++ [e]), s)
        else return (.declare (names.map Prod.fst) [], ← declareLocals s last.meaning names)
    | .mark "break" => do
      advance
      if !s.inLoop then
        modify fun c => { c with looseBreak := c.looseBreak <|> some l }
      return (.leave, s)
    | .mark "goto" | .mark "::" => throw .leftOut
    | first => do
      let d ← suffixed fuel s
      if (← atMark "=") || (← atMark ",") then
        let (targets, given) ← assignment fuel s first d
        return (.assign targets given (← lastLine), s)
      else if isCall d then return (.run (d.onLine l), s)
      else failNear "syntax error"

/-- Conditions and blocks behind an `if` or `elseif`, up to the `end` of all of them. -/
def branch (fuel : Nat) (s : Scope) (openLine : Nat) : Reader Stmt :=
  match fuel with
  | 0 => exhausted
  | fuel + 1 => do
    let d ← expr fuel s 0
    pass "then"
    let condition := d.onLine (← lastLine)
    let yes ← inner fuel s
    if ← skip "elseif" then return .branch condition yes [← branch fuel s openLine]
    else if ← skip "else" then
      let no ← inner fuel s
      close "end" "if" openLine
      return .branch condition yes no
    else
      close "end" "if" openLine
      return .branch condition yes []

/-- A loop behind its `for`. -/
def forLoop (fuel : Nat) (s : Scope) (openLine : Nat) : Reader Stmt :=
  match fuel with
  | 0 => exhausted
  | fuel + 1 => do
    let n ← name
    match ← token with
    | .mark "=" => do
      let inside ← admitName (← admitHidden s 3)
      advance
      let first ← single fuel s
      pass ","
      let last ← single fuel (← hold s 1)
      let step ← if ← skip "," then some <$> single fuel (← hold s 2) else pure none
      let inside ← declare (← hold inside 3) n .variable
      pass "do"
      let l ← lastLine
      let stmts ← inner fuel inside.loop
      close "end" "for" openLine
      return .count n first last step stmts l
    | .mark "," | .mark "in" => do
      let inside ← admitName (← admitHidden s 4)
      let (names, inside) ← moreNames fuel inside
      pass "in"
      let l ← line
      let given ← values fuel s
      let inside ← declareVariables (← hold inside 4) (n :: names)
      pass "do"
      let stmts ← inner fuel inside.loop
      close "end" "for" openLine
      return .each (n :: names) given stmts l
    | _ => failNear "'=' or 'in' expected"

/-- Names with commas before them. -/
def moreNames (fuel : Nat) (s : Scope) : Reader (List Bytes × Scope) :=
  match fuel with
  | 0 => exhausted
  | fuel + 1 => do
    if ← skip "," then
      let n ← name
      let (names, s) ← moreNames fuel (← admitName s)
      return (n :: names, s)
    else return ([], s)

/-- Local names with their attributes. -/
def localNames (fuel : Nat) (s : Scope) : Reader (List (Bytes × Attribute) × Scope) :=
  match fuel with
  | 0 => exhausted
  | fuel + 1 => do
    let n ← name
    let s ← admitName s
    let a ← attributeOf
    if ← skip "," then
      let (names, s) ← localNames fuel s
      return ((n, a) :: names, s)
    else return ([(n, a)], s)

/-- The name of a function: fields, and one last field for a method, whose functions have a
parameter before those that are written. -/
def functionName (fuel : Nat) (s : Scope) (object : Draft) : Reader (Draft × List Bytes) :=
  match fuel with
  | 0 => exhausted
  | fuel + 1 => do
    let o := object.onLine (← lastLine)
    if ← skip "." then functionName fuel s (.access o (.string (← name)))
    else if ← skip ":" then return (.access o (.string (← name)), [Bytes.ofAscii "self"])
    else return (object, [])

/-- An assignment whose first target has been read. -/
def assignment (fuel : Nat) (s : Scope) (first : Token) (d : Draft) :
    Reader (List Target × List Expr) :=
  match fuel with
  | 0 => exhausted
  | fuel + 1 => do
    let target ← targetOf s first d
    if ← skip "," then
      let next ← token
      let d ← suffixed fuel s
      let (targets, given) ← assignment fuel (← enter s) next d
      return (target :: targets, given)
    else
      pass "="
      return ([target], ← values fuel s)

end

/-- All of a source that is read inside of some calls. -/
def program (fuel nested : Nat) : Reader Body := do
  let (stmts, _) ← block fuel (Scope.outermost nested)
  match ← token with
  | .done =>
    refuseLooseBreak
    return .mk [] true stmts
  | _ => failNear "<eof> expected"

end Reader

/-- More steps than reading a source with some number of tokens takes. -/
def readingFuel (tokens : Nat) : Nat := 16 * (tokens + 2)

/-- The program of a source that is read inside of some calls. -/
def readProgram (nested : Nat) (source : Bytes) : Except Refusal Body :=
  match lexemes source with
  | [] => .ok (.mk [] true [])
  | .error m :: _ => .error (.misspelled m)
  | .ok l :: ahead =>
    (Reader.program (readingFuel ahead.length) nested).run' ⟨l, ahead, 1, none⟩

end BuildScript.Script
