import BuildScript.Script.Library
import BuildScript.Script.Operators

/-!
# Evaluation

Programs are run on a store. Every function here takes the number of nested steps that it may
still make; without any it does not come to an end, and neither does what called it. More
steps never change what comes to an end. A program that needs something that is left out of the
language does not come to an end with any number of steps; `Environment` says what that is.

* `Evaluator.value`, `Evaluator.values`: what an expression gives;
* `Evaluator.block`: what statements do, and how control leaves them;
* `Evaluator.apply`: calls;
* `Evaluator.lookup`: fields, with what stands in for the missing ones;
* `Evaluator.host`: what functions given to the script need of all that.
-/

namespace BuildScript.Script

/-- A function under way: where it was written, how many functions surround it, and its
arguments without names. -/
structure Activation where
  chunk : Bytes
  level : Nat
  rest : List Value

/-- How control leaves statements. -/
inductive Flow where
  /-- To the statement behind them, with these variables in reach. -/
  | next (scope : List Binding)
  /-- Out of the loop around them. -/
  | left
  /-- Out of the function. -/
  | returned (values : List Value)
  /-- Out of the function, which gives what another function of the script gives. -/
  | passed (body : Body) (scope : List Binding) (chunk : Bytes) (level : Nat)
    (arguments : List Value)

/-- A value, or the variable that it is in and may still be changed in. -/
inductive Held where
  | value (v : Value)
  | cell (id : Nat)

/-- A value in a variable, or alone. -/
def Held.of (holder : Option Binding) (v : Value) : Held :=
  match holder with
  | some b => .cell b.cell
  | none => .value v

/-- What can be assigned to. -/
inductive Spot where
  | cell (id : Nat)
  | field (object : Held) (subject : Option Subject) (key : Held)

namespace Evaluator

open Run Operators

/-! ## Names and places -/

def binding? (scope : List Binding) (name : Bytes) : Option Binding :=
  scope.find? (·.name == name)

/-- The variable of the function under way that an expression is, if it is one. It has its value
where it is, until the value is used. -/
def ownVariable? (a : Activation) (scope : List Binding) : Expr → Option Binding
  | .name n => (binding? scope n).filter (·.level == a.level)
  | _ => none

/-- The largest index for which a field is known to have an index of its own. -/
def maxIndexKey : Int := 255

/-- What messages call a field, by its object and its key. The fields of the table of globals
are variables. -/
def fieldSubject (object key : Expr) : Subject :=
  let origin := match object with
    | .name n => if n = environmentName then Origin.globalVariable else .field
    | _ => .field
  match key with
  | .string k => ⟨origin, k⟩
  | .number (.whole i) =>
    if 0 ≤ i.toInt ∧ i.toInt ≤ maxIndexKey then ⟨.field, Bytes.ofAscii "integer index"⟩
    else ⟨origin, Bytes.ofAscii "?"⟩
  | _ => ⟨origin, Bytes.ofAscii "?"⟩

/-- What messages call an expression. -/
def subject (a : Activation) (scope : List Binding) : Expr → Option Subject
  | .name n =>
    (binding? scope n).map fun b =>
      ⟨if b.level = a.level then .ownVariable else .outerVariable, n⟩
  | .index object key _ => some (fieldSubject object key)
  | .string bs => some ⟨.constant, bs⟩
  | _ => none

/-- What messages call a field that is called as a method. -/
def methodSubject (field : Bytes) : Option Subject := some ⟨.method, field⟩

def place (a : Activation) (line : Nat) : Place := ⟨a.chunk, line⟩

/-- New variables, the later ones nearer. Those without a value have none. -/
def declare (level : Nat) : List Bytes → List Value → List Binding → Run (List Binding)
  | [], _, scope => return scope
  | n :: names, values, scope => do
    let cell ← newCell (values.head?.getD .nil)
    declare level names values.tail (⟨n, cell, level⟩ :: scope)

/-- How many tables a look-up goes through before it is taken for endless. -/
def maxHops : Nat := 2000

/-- Raises a message at a place of the script, or at none. -/
def failHere {α : Type} (at? : Option Place) (message : Bytes) : Run α :=
  match at? with
  | some p => failAt p message
  | none => raise (.string message)

/-- What is called, by the number of the function. -/
def calleeOf (id : Nat) (called : Option Subject) : Function → Callee
  | .script _ _ chunk _ => .script ⟨chunk, 0⟩
  | .host _ => .host id called

/-- The value that is held. -/
def release : Held → Run Value
  | .value v => return v
  | .cell id => look (·.cell id)

/-- Puts a value where it is assigned to. -/
def assign (p : Place) (spot : Spot) (v : Value) : Run Unit :=
  match spot with
  | .cell id => change fun s => s.setCell id v
  | .field object subject key => do
    match ← release object, ← release key with
    | .table _, .nil => failAt p (Bytes.ofAscii "table index is nil")
    | .table _, .number (.undefined _) => failAt p (Bytes.ofAscii "table index is NaN")
    | .table id, key => put id key v
    | o, _ => failAt p (cannot "index" o subject)

/-- Takes the value out of a variable that is assigned to, too. -/
def takeOut (assigned : List Nat) : Held → Run Held
  | .cell id =>
    if assigned.contains id then do return .value (← look (·.cell id)) else return .cell id
  | h => return h

/-- The variables among targets. -/
def cells (spots : List Spot) : List Nat :=
  spots.filterMap fun
    | .cell id => some id
    | _ => none

/-- Targets that do not depend on the variables among those behind them, which are assigned to
first. -/
def settle : List Spot → Run (List Spot)
  | [] => return []
  | .field object subject key :: rest => do
    let assigned := cells rest
    let spot := Spot.field (← takeOut assigned object) subject (← takeOut assigned key)
    return spot :: (← settle rest)
  | spot :: rest => do return spot :: (← settle rest)

/-- An empty table with room for the parts that are written out. Nobody knows how many values the
last part has if it can have many. -/
def emptyFor (parts : List Item) : Table :=
  let positional := parts.filterMap Item.positional?
  let isOpen := match parts.getLast? with
    | some (.positional e) => e.isMany
    | _ => false
  Table.sized (positional.length - if isOpen then 1 else 0) (parts.length - positional.length)

/-! ## Loops -/

/-- The rounds of a loop over numbers. Of doubles there is always a next one. -/
inductive Rounds where
  | whole (first step : Int64) (count : Nat)
  | float (first last step : Number)
  | none

/-- Whether a loop over doubles goes on to a number. -/
def reaches (last step i : Number) : Bool :=
  if Number.lt (.float 0.0) step then i.le last else last.le i

/-- The number of the next round, and the rounds behind it. -/
def Rounds.next? : Rounds → Option (Number × Rounds)
  | .whole i step (count + 1) => some (.whole i, .whole (i + step) step count)
  | .float i last step =>
    let j := i.add step
    some (i, if reaches last step j then .float j last step else .none)
  | _ => Option.none

/-- How many rounds there are at most, or the given number where that is not known. -/
def Rounds.bound (other : Nat) : Rounds → Nat
  | .whole _ _ count => count + 1
  | .float .. => other
  | .none => 1

/-- What comes after a round: another one, unless control left the loop. -/
def goOn {σ : Type} (scope : List Binding) (state : σ) : Flow → Round σ Flow
  | .next _ => .again state
  | .left => .stop (.next scope)
  | flow => .stop flow

/-- The last whole number that a loop can reach, from the limit of the loop; nothing if it has
no round. -/
def lastWhole? (step : Int64) : Number → Option Int64
  | .whole n => some n
  | .undefined _ => if 0 < step then none else some Int64.minValue
  | .float x =>
    let up : Bool := 0 < step
    if Number.wholeEnd ≤ x then if up then some Int64.maxValue else none
    else if x < -Number.wholeEnd then if up then none else some Int64.minValue
    else some (if up then x.floor else x.ceil).toInt64

/-- The rounds from one number to another. -/
def rounds (p : Place) (first last step : Value) : Run Rounds := do
  let number (what : String) (v : Value) : Run Number :=
    match v.toNumber? with
    | some n => return n
    | none =>
      failAt p (Bytes.ofAscii
        ("bad 'for' " ++ what ++ " (number expected, got " ++ v.typeName ++ ")"))
  match first, step with
  | .number (.whole i), .number (.whole d) =>
    if d = 0 then failAt p (Bytes.ofAscii "'for' step is zero")
    else
      match lastWhole? d (← number "limit" last) with
      | none => return .none
      | some l =>
        let span := if 0 < d then l.toInt - i.toInt else i.toInt - l.toInt
        if span < 0 then return .none
        else return .whole i d (span.toNat / d.toInt.natAbs + 1)
  | _, _ =>
    let l := (← number "limit" last).widen
    let d := (← number "step" step).widen
    let i := (← number "initial value" first).widen
    if d.eq (.float 0.0) then failAt p (Bytes.ofAscii "'for' step is zero")
    else
      let isOver := if Number.lt (.float 0.0) d then l.lt i else i.lt l
      return if isOver then .none else .float i l d

/-! ## Programs -/

mutual

/-- The value of an expression. -/
def value (fuel : Nat) (a : Activation) (scope : List Binding) (e : Expr) : Run Value :=
  match fuel with
  | 0 => unfinished
  | fuel + 1 =>
    match e with
    | .nil => return .nil
    | .bool b => return .bool b
    | .number n => return .number n
    | .string bs => return .string bs
    | .rest => return a.rest.head?.getD .nil
    | .name n =>
      match binding? scope n with
      | some b => look (·.cell b.cell)
      | none => return .nil
    | .index object key line => do
      let (o, k) ← access fuel a scope object key
      onLine (place a line)
      lookup fuel maxHops (some (place a line)) o.subject o.value k
    | .function body => newFunction (.script body scope a.chunk (a.level + 1))
    | .unary op x line => do
      let o ← operand fuel a scope x
      match op with
      | .not => return .bool (!o.value.isTrue)
      | .negate => negate (place a line) o
      | .length => length (place a line) o
      | .complement => complement (place a line) o
    | .binary op l r line =>
      if op ≠ .concat ∧ (ownVariable? a scope l).isSome then do
        let y ← operand fuel a scope r
        binary (place a line) op (← operand fuel a scope l) y
      else do
        let x ← operand fuel a scope l
        binary (place a line) op x (← operand fuel a scope r)
    | .both l r => do
      let v ← value fuel a scope l
      if v.isTrue then value fuel a scope r else return v
    | .either l r => do
      let v ← value fuel a scope l
      if v.isTrue then return v else value fuel a scope r
    | .single e => value fuel a scope e
    | .table parts => do
      newTable (← items fuel a scope parts (emptyFor parts) 0 [])
    | .call .. | .invoke .. => do
      return (← values fuel a scope e).head?.getD .nil
where
  /-- An operator between two operands. -/
  binary (p : Place) (op : Binary) (x y : Operand) : Run Value :=
    match Arithmetic.onNumbers? op, Arithmetic.onWords? op, op with
    | some f, _, _ => arithmetic p op f x y
    | _, some f, _ => bitwise p f x y
    | _, _, .concat => concatenate p x y
    | _, _, .eq => return .bool (x.value.rawEq y.value)
    | _, _, .ne => return .bool (!x.value.rawEq y.value)
    | _, _, .lt => below p x.value y.value
    | _, _, .le => belowOrEqual p x.value y.value
    | _, _, .gt => below p y.value x.value
    | _, _, _ => belowOrEqual p y.value x.value

/-- The value of an expression and what it is called. -/
def operand (fuel : Nat) (a : Activation) (scope : List Binding) (e : Expr) : Run Operand :=
  match fuel with
  | 0 => unfinished
  | fuel + 1 => do return ⟨← value fuel a scope e, subject a scope e⟩

/-- An object and a key. A variable is looked at when both are needed. -/
def access (fuel : Nat) (a : Activation) (scope : List Binding) (object key : Expr) :
    Run (Operand × Value) :=
  match fuel with
  | 0 => unfinished
  | fuel + 1 =>
    match object with
    | .name _ => do
      let k ← value fuel a scope key
      return (← operand fuel a scope object, k)
    | _ => do
      let o ← operand fuel a scope object
      return (o, ← value fuel a scope key)

/-- All values of an expression. -/
def values (fuel : Nat) (a : Activation) (scope : List Binding) (e : Expr) : Run (List Value) :=
  match fuel with
  | 0 => unfinished
  | fuel + 1 =>
    match e with
    | .rest => return a.rest
    | .call f arguments line => do
      let function ← value fuel a scope f
      let given ← list fuel a scope arguments
      callAt fuel (place a line) (subject a scope f) function given
    | .invoke object field arguments fieldLine line => do
      let (o, function) ← method fuel a scope object field fieldLine
      let given ← list fuel a scope arguments
      callAt fuel (place a line) (methodSubject field) function (o :: given)
    | e => do return [← value fuel a scope e]

/-- An object and one of its fields. -/
def method (fuel : Nat) (a : Activation) (scope : List Binding) (object : Expr) (field : Bytes)
    (line : Nat) : Run (Value × Value) :=
  match fuel with
  | 0 => unfinished
  | fuel + 1 => do
    let o ← operand fuel a scope object
    onLine (place a line)
    let function ← lookup fuel maxHops (some (place a line)) o.subject o.value (.string field)
    return (o.value, function)

/-- The values of expressions, of the last one all of them. -/
def list (fuel : Nat) (a : Activation) (scope : List Binding) (es : List Expr) :
    Run (List Value) :=
  match fuel with
  | 0 => unfinished
  | fuel + 1 =>
    match es with
    | [] => return []
    | [e] => values fuel a scope e
    | e :: rest => do
      let v ← value fuel a scope e
      return v :: (← list fuel a scope rest)

/-- A table with more parts. Values without a key wait until there are enough of them; all those
of the last part are put into the table together. -/
def items (fuel : Nat) (a : Activation) (scope : List Binding) (parts : List Item) (t : Table)
    (before : Nat) (waiting : List Value) : Run Table :=
  match fuel with
  | 0 => unfinished
  | fuel + 1 =>
    match parts with
    | [] => return t.setList before waiting
    | [.positional e] => do return t.setList before (waiting ++ (← values fuel a scope e))
    | .positional e :: rest => do
      let waiting := waiting ++ [← value fuel a scope e]
      if waiting.length < Item.together then items fuel a scope rest t before waiting
      else items fuel a scope rest (t.setList before waiting) (before + waiting.length) []
    | .keyed key e line :: rest => do
      let (k, v) ← if (ownVariable? a scope key).isSome then do
          let v ← value fuel a scope e
          pure (← value fuel a scope key, v)
        else do
          let k ← value fuel a scope key
          pure (k, ← value fuel a scope e)
      match k with
      | .nil => failAt (place a line) (Bytes.ofAscii "table index is nil")
      | .number (.undefined _) => failAt (place a line) (Bytes.ofAscii "table index is NaN")
      | k => items fuel a scope rest (t.set k v) before waiting

/-- A call from the script. -/
def callAt (fuel : Nat) (p : Place) (called : Option Subject) (f : Value)
    (arguments : List Value) : Run (List Value) :=
  match fuel with
  | 0 => unfinished
  | fuel + 1 =>
    match f with
    | .function id => do
      onLine p
      match ← look (fun s => s.functions[id]?) with
      | some f => apply fuel f (calleeOf id called f) false arguments
      | none => return []
    | v => failAt p (cannot "call" v called)

/-- The last call of a function. Another function of the script takes its place among the calls
under way. -/
def lastCall (fuel : Nat) (p : Place) (called : Option Subject) (f : Value)
    (arguments : List Value) : Run Flow :=
  match fuel with
  | 0 => unfinished
  | fuel + 1 => do
    let function ← match f with
      | .function id => look (fun s => s.functions[id]?)
      | _ => pure none
    match function with
    | some (.script body scope chunk level) => return .passed body scope chunk level arguments
    | _ => return .returned (← callAt fuel p called f arguments)

/-- A call that was not written in the script. -/
def callFromHost (fuel : Nat) (called : Option Subject) (f : Value) (arguments : List Value) :
    Run (List Value) :=
  match fuel with
  | 0 => unfinished
  | fuel + 1 =>
    match f with
    | .function id => do
      match ← look (fun s => s.functions[id]?) with
      | some f => apply fuel f (calleeOf id called f) true arguments
      | none => return []
    | v => raise (.string (cannot "call" v none))

/-- What a function gives for its arguments. -/
def apply (fuel : Nat) (f : Function) (callee : Callee) (fromHost : Bool)
    (arguments : List Value) : Run (List Value) :=
  match fuel with
  | 0 => unfinished
  | fuel + 1 =>
    match f with
    | .script body scope chunk level =>
      loop (fun (flow : Flow) => do
        match flow with
        | .passed body scope chunk level arguments =>
          .again <$> within (.script ⟨chunk, 0⟩) fromHost do
            let scope ← declare level body.parameters arguments scope
            let rest := if body.takesRest then arguments.drop body.parameters.length else []
            block fuel ⟨chunk, level, rest⟩ scope body.block
        | .returned vs => return .stop vs
        | _ => return .stop []) fuel (Flow.passed body scope chunk level arguments)
    | .host b =>
      within callee fromHost (Library.call
        ⟨fun f arguments => callFromHost fuel none f arguments,
          fun object key => lookup fuel maxHops none none object key⟩ b arguments)

/-- The value that an object has under a key, or what stands in for it. -/
def lookup (fuel : Nat) (hops : Nat) (at? : Option Place) (called : Option Subject)
    (object key : Value) : Run Value :=
  match fuel with
  | 0 => unfinished
  | fuel + 1 => do
    let direct ← match object with
      | .table id => make (·.readTable id key)
      | _ => pure .nil
    if !direct.isNil then return direct
    match ← look (·.lookupBeyond object), object with
    | .nil, .table _ => return .nil
    | .nil, o => failHere at? (cannot "index" o called)
    | .function id, _ => do
      let called := at?.map fun _ => Subject.standIn
      return (← callFromHost fuel called (.function id) [object, key]).head?.getD .nil
    | beyond, _ =>
      match hops with
      | 0 => failHere at? (Bytes.ofAscii "'__index' chain too long; possible loop")
      | hops + 1 => lookup fuel hops at? none beyond key

/-- What statements do. -/
def block (fuel : Nat) (a : Activation) (scope : List Binding) (stmts : List Stmt) : Run Flow :=
  match fuel with
  | 0 => unfinished
  | fuel + 1 =>
    match stmts with
    | [] => return .next scope
    | s :: rest => do
      match ← statement fuel a scope s with
      | .next scope => block fuel a scope rest
      | flow => return flow

/-- What statements of a block of their own do. Their variables are not in reach behind
them. -/
def inner (fuel : Nat) (a : Activation) (scope : List Binding) (stmts : List Stmt) : Run Flow :=
  match fuel with
  | 0 => unfinished
  | fuel + 1 => do
    match ← block fuel a scope stmts with
    | .next _ => return .next scope
    | flow => return flow

def statement (fuel : Nat) (a : Activation) (scope : List Binding) (s : Stmt) : Run Flow :=
  match fuel with
  | 0 => unfinished
  | fuel + 1 =>
    match s with
    | .declare names es => do
      let vs ← list fuel a scope es
      return .next (← declare a.level names vs scope)
    | .declareFunction name body => do
      let scope ← declare a.level [name] [] scope
      let f ← newFunction (.script body scope a.chunk (a.level + 1))
      match binding? scope name with
      | some b => change fun s => s.setCell b.cell f
      | none => pure ()
      return .next scope
    | .assign targets es line => do
      let spots ← settle (← spots fuel a scope targets)
      let vs ← list fuel a scope es
      let filled := vs ++ List.replicate (spots.length - vs.length) .nil
      (spots.zip filled).reverse.forM fun e => assign (place a line) e.1 e.2
      return .next scope
    | .run call => do
      let _ ← values fuel a scope call
      return .next scope
    | .block stmts => inner fuel a scope stmts
    | .branch condition yes no => do
      let v ← value fuel a scope condition
      inner fuel a scope (if v.isTrue then yes else no)
    | .whileLoop condition stmts =>
      loop (fun _ => do
        if (← value fuel a scope condition).isTrue then
          return goOn scope () (← block fuel a scope stmts)
        else return .stop (.next scope)) fuel ()
    | .untilLoop stmts condition =>
      loop (fun _ => do
        match ← block fuel a scope stmts with
        | .next inside => do
          if (← value fuel a inside condition).isTrue then return .stop (.next scope)
          else return .again ()
        | flow => return goOn scope () flow) fuel ()
    | .count name first last step stmts line => do
      let i ← value fuel a scope first
      let l ← value fuel a scope last
      let d ← match step with
        | some e => value fuel a scope e
        | none => pure (.whole 1)
      let all ← rounds (place a line) i l d
      loop (fun r => do
        match Rounds.next? r with
        | none => return .stop (.next scope)
        | some (n, r) => do
          let inside ← declare a.level [name] [.number n] scope
          return goOn scope r (← block fuel a inside stmts)) (all.bound fuel) all
    | .each names es stmts line => do
      let vs ← list fuel a scope es
      -- a fourth value is closed behind the loop
      if (Library.argument vs 4).isTrue then Run.leftOut
      let f := Library.argument vs 1
      let state := Library.argument vs 2
      loop (fun control => do
        let vs ← callAt fuel (place a line) (some Subject.iterator) f [state, control]
        match Library.argument vs 1 with
        | .nil => return .stop (.next scope)
        | control => do
          let inside ← declare a.level names vs scope
          return goOn scope control (← block fuel a inside stmts)) fuel (Library.argument vs 3)
    | .leave => return .left
    | .giveBack [.call f arguments line] => do
      let function ← value fuel a scope f
      let given ← list fuel a scope arguments
      lastCall fuel (place a line) (subject a scope f) function given
    | .giveBack [.invoke object field arguments fieldLine line] => do
      let (o, function) ← method fuel a scope object field fieldLine
      let given ← list fuel a scope arguments
      lastCall fuel (place a line) (methodSubject field) function (o :: given)
    | .giveBack es => do return .returned (← list fuel a scope es)
    | .leftOut => Run.leftOut

/-- What targets of an assignment are. Their objects and keys are evaluated first, but
variables of the function under way are looked at when something is put there. -/
def spots (fuel : Nat) (a : Activation) (scope : List Binding) (targets : List Target) :
    Run (List Spot) :=
  match fuel with
  | 0 => unfinished
  | fuel + 1 =>
    match targets with
    | [] => return []
    | .field object key :: rest => do
      let (o, k) ← access fuel a scope object key
      let holder := match object, key with
        | .name n, .string _ => binding? scope n
        | e, _ => ownVariable? a scope e
      return .field (Held.of holder o.value) o.subject (Held.of (ownVariable? a scope key) k) ::
        (← spots fuel a scope rest)
    | .variable n :: rest => do
      match binding? scope n with
      | some b => return .cell b.cell :: (← spots fuel a scope rest)
      | none => return .cell (← newCell .nil) :: (← spots fuel a scope rest)

end

/-- What functions given to the script need. -/
def host (fuel : Nat) : Host where
  call := callFromHost fuel none
  lookup := lookup fuel maxHops none none

end Evaluator

end BuildScript.Script
