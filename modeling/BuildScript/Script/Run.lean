import BuildScript.Script.Action
import BuildScript.Script.Store

/-!
# Running steps of a script

A step works on the store and may ask for something on the way. It gives a value, raises one,
or does not come to an end within the steps that it was given. It does not come to an end either
where it needs something of the language that is left out.

* `Outcome`, `Run`: the steps, in the order in which they are written;
* `Run.raise`, `Run.attempt`: raising and catching;
* `Run.leftOut`, `Run.put`: what becomes of a script that needs what is left out;
* `Run.loop`: repeating;
* `Run.atHost`: what becomes of raised values on their way through a function that was given
  to the script;
* `Run.position`: the place that a message begins with.
-/

namespace BuildScript.Script

inductive Outcome (α : Type) where
  | value (a : α)
  | raised (v : Value)
  /-- The steps that were given did not suffice, or something that is left out is needed. -/
  | unfinished

def Run (α : Type) : Type := Store → Action (Outcome α × Store)

namespace Run

variable {α β : Type}

protected def pure (a : α) : Run α := fun s => .done (.value a, s)

protected def bind (x : Run α) (f : α → Run β) : Run β := fun s =>
  (x s).bind fun
    | (.value a, s) => f a s
    | (.raised v, s) => .done (.raised v, s)
    | (.unfinished, s) => .done (.unfinished, s)

instance : Monad Run where
  pure := Run.pure
  bind := Run.bind

/-! ## The store -/

/-- Something that the store has. -/
def look (f : Store → α) : Run α := fun s => .done (.value (f s), s)

def change (f : Store → Store) : Run Unit := fun s => .done (.value (), f s)

/-- A step that makes something in the store. -/
def make (f : Store → α × Store) : Run α := fun s => let r := f s; .done (.value r.1, r.2)

def newTable (t : Table) : Run Value := make fun s => let r := s.addTable t; (.table r.1, r.2)

def newFunction (f : Function) : Run Value := make fun s => s.addFunction f

def newCell (v : Value) : Run Nat := make fun s => s.addCell v

/-- A function that runs a whole source among the globals. -/
def newProgram (body : Body) (chunk : Bytes) : Run Value := do
  let globals ← newCell (.table (← look Store.globals))
  newFunction (.script body [⟨environmentName, globals, 0⟩] chunk 1)

/-- How many calls are under way that were not made by scripts. -/
def nestedCalls : Run Nat := look fun s =>
  match s.frames with
  | f :: _ => f.nested
  | [] => 0

/-! ## Requests -/

def ask (q : Request) : Run q.Reply := fun s => .ask q fun r => .done (.value r, s)

/-! ## Raising and catching -/

def raise (v : Value) : Run α := fun s => .done (.raised v, s)

def fail (f : Fault) : Run α := raise (.fault f)

def unfinished : Run α := fun s => .done (.unfinished, s)

/-- Something that is left out is needed. No script can catch that. -/
def leftOut : Run α := unfinished

/-- The value of a step or what it raised. The calls under way are those from before it. -/
def attempt (x : Run α) : Run (Except Value α) := fun s =>
  let outer := s.frames
  (x s).bind fun
    | (.value a, s) => .done (.value (.ok a), s)
    | (.raised v, s) => .done (.value (.error v), { s with frames := outer })
    | (.unfinished, s) => .done (.unfinished, s)

/-- A step made for the script by a function that was given to it: whatever is raised in it
goes on as a fault. -/
def atHost (x : Run α) : Run α := do
  match ← attempt x with
  | .ok a => return a
  | .error v => fail v.raised

/-! ## Tables in use -/

/-- Puts a value into a table. A metatable must not come to define what is left out. -/
def put (id : Nat) (key value : Value) : Run Unit := do
  if ← look fun s => !value.isNil && Store.isLeftOutEvent key && s.isMetatable id then leftOut
  else change fun s => s.rawSet id key value

/-! ## Repeating -/

/-- Whether a step is repeated. -/
inductive Round (σ β : Type) where
  | again (state : σ)
  | stop (b : β)

/-- Repeats a step until it stops, so many times at most. -/
def loop {σ : Type} (step : σ → Run (Round σ β)) : Nat → σ → Run β
  | 0, _, s => unfinished s
  | n + 1, a, s =>
    match step a s with
    | .done (.value (.again a), s) => loop step n a s
    | .done (.value (.stop b), s) => .done (.value b, s)
    | x => x.bind fun
      | (.value (.again a), s) => loop step n a s
      | (.value (.stop b), s) => .done (.value b, s)
      | (.raised v, s) => .done (.raised v, s)
      | (.unfinished, s) => .done (.unfinished, s)

theorem loop_succ {σ : Type} (step : σ → Run (Round σ β)) (n : Nat) (a : σ) :
    loop step (n + 1) a = (step a).bind fun
      | .again a => loop step n a
      | .stop b => Run.pure b := by
  funext s
  simp only [loop, Run.bind]
  cases step a s with
  | done r =>
    obtain ⟨o, s⟩ := r
    match o with
    | .value (.again a) => rfl
    | .value (.stop b) => rfl
    | .raised v => rfl
    | .unfinished => rfl
  | ask q next =>
    simp only [Action.bind]
    congr
    funext r
    congr
    funext p
    obtain ⟨o, s⟩ := p
    match o with
    | .value (.again a) => rfl
    | .value (.stop b) => rfl
    | .raised v => rfl
    | .unfinished => rfl

/-! ## Calls under way -/

/-- Where the call is that stands so many calls outside of the innermost one, as messages
begin with it. A function that was given to the script is nowhere. -/
def position (level : Nat) : Run Bytes := do
  match ← look (fun s => s.frames[level]?) with
  | some ⟨.script p, _, _⟩ => return p.text ++ Bytes.ofAscii " "
  | _ => return []

/-- Raises a message that begins with the place of a call. -/
def complainAt (level : Nat) (message : Bytes) : Run α := do
  raise (.string ((← position level) ++ message))

/-- Raises a message about the call of the function under way. -/
def complain (message : Bytes) : Run α := complainAt 1 message

/-- How many calls may be under way. -/
def maxDepth : Nat := 50000

/-- How many calls may be under way that were not made by scripts. -/
def maxNested : Nat := 200

/-- The frame of a call inside of others. -/
def newFrame (outer : List Frame) (callee : Callee) (fromHost : Bool) : Frame :=
  let more := if fromHost then 1 else 0
  match outer with
  | f :: _ => ⟨callee, f.depth + 1, f.nested + more⟩
  | [] => ⟨callee, 1, more⟩

/-- A step with one more call under way. There must not be too many of them. -/
def within (callee : Callee) (fromHost : Bool) (x : Run α) : Run α := do
  let outer ← look Store.frames
  let frame := newFrame outer callee fromHost
  if maxDepth < frame.depth then complainAt 0 (Bytes.ofAscii "stack overflow")
  if maxNested ≤ frame.nested then complainAt 0 (Bytes.ofAscii "C stack overflow")
  change fun s => { s with frames := frame :: outer }
  let a ← x
  change fun s => { s with frames := outer }
  return a

/-- Notes the line that the innermost call is on. -/
def onLine (place : Place) : Run Unit :=
  change fun s => { s with frames :=
    match s.frames with
    | ⟨.script _, depth, nested⟩ :: outer => ⟨.script place, depth, nested⟩ :: outer
    | frames => frames }

/-- Raises a message about a step at some place. -/
def failAt (place : Place) (message : Bytes) : Run α :=
  raise (.string (place.text ++ Bytes.ofAscii " " ++ message))

/-- What a function given to the script is called by and, if that has no name, where it is found
among the libraries. -/
def nameOf (s : Store) : Callee → Option Subject × Bytes
  | .host _ (some called) => (some called, called.name)
  | .host id none => (none, (s.libraryName? id).getD (Bytes.ofAscii "?"))
  | .script _ => (none, Bytes.ofAscii "?")

/-- Raises a message about an argument of the function under way. The object of a method is not
counted. -/
def refuseArgument (position : Nat) (reason : String) : Run α := do
  let (called, name) ← look fun s =>
    match s.frames with
    | f :: _ => nameOf s f.callee
    | [] => (none, Bytes.ofAscii "?")
  let name := name.untilNul
  let isMethod := called.any (·.origin == .method)
  let reason := Bytes.ofAscii (" (" ++ reason ++ ")")
  if isMethod && position = 1 then
    complain (Bytes.ofAscii "calling '" ++ name ++ Bytes.ofAscii "' on bad self" ++ reason)
  else
    let counted := if isMethod then position - 1 else position
    complain (Bytes.ofAscii ("bad argument #" ++ toString counted ++ " to '") ++ name ++
      Bytes.ofAscii "'" ++ reason)

end Run

end BuildScript.Script
