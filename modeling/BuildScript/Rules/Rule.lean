import BuildScript.Json.Scan

/-!
# Rules

A rule says which command makes which files from which others. On paper it is a JSON object
with three lists of strings.

* `Rule.encode`: the one way in which a rule is written;
* `Rule.read`: a rule in any spelling. An object may have other members, which do not matter,
  and may leave lists out; a list of up to three lists gives them by position.
* `readRules`: a document that is a list of rules.
-/

namespace BuildScript

open Json

/-- A step of a build. -/
structure Rule where
  inputs : List String
  task : List String
  outputs : List String
  deriving DecidableEq, Repr

namespace Rule

def empty : Rule := ⟨[], [], []⟩

/-! ## Writing -/

/-- Parts of a list or an object, with commas between them. -/
def commas : List Bytes → Bytes
  | [] => []
  | [part] => part
  | part :: rest => part ++ commaByte :: commas rest

def encodeList (items : List String) : Bytes :=
  openList :: (commas (items.map quote) ++ [closeList])

def encodeMember (key : String) (items : List String) : Bytes :=
  quote key ++ colonByte :: encodeList items

def encode (r : Rule) : Bytes :=
  openObject ::
    (commas [encodeMember "inputs" r.inputs, encodeMember "task" r.task,
      encodeMember "outputs" r.outputs] ++ [closeObject])

/-! ## Reading -/

/-- The lists of a rule. -/
inductive Field where
  | inputs
  | task
  | outputs
  deriving DecidableEq, Repr

def Field.key : Field → String
  | inputs => "inputs"
  | task => "task"
  | outputs => "outputs"

def Field.all : List Field := [inputs, task, outputs]

/-- What has been read of a rule. -/
structure Draft where
  inputs : Option (List String)
  task : Option (List String)
  outputs : Option (List String)
  deriving DecidableEq, Repr

namespace Draft

def empty : Draft := ⟨none, none, none⟩

def get? (d : Draft) : Field → Option (List String)
  | .inputs => d.inputs
  | .task => d.task
  | .outputs => d.outputs

def set (d : Draft) (items : List String) : Field → Draft
  | .inputs => { d with inputs := some items }
  | .task => { d with task := some items }
  | .outputs => { d with outputs := some items }

/-- The rule, with nothing in the lists that were left out. -/
def rule (d : Draft) : Rule := ⟨d.inputs.getD [], d.task.getD [], d.outputs.getD []⟩

end Draft

def strings : Bytes → Except Fault (List String × Bytes) := list string

/-- The fields by position, as many as there are, and then the end of the list. -/
def positional : List Field → (first : Bool) → Draft → Bytes → Except Fault (Draft × Bytes)
  | [], _, d, bs => (endElements bs).map (d, ·)
  | f :: fields, first, d, bs =>
    (nextElement first bs).bind fun
      | none => positional fields first d bs
      | some bs =>
        (strings bs).bind fun (items, rest) => positional fields false (d.set items f) rest

/-- Where the key of the next member begins, behind its quote, if there is one. Without one,
what follows the closing bracket. -/
def nextMember (first : Bool) (bs : Bytes) : Except Fault (Bytes ⊕ Bytes) :=
  match skipBlanks bs with
  | [] => .error .ended
  | b :: rest =>
    if b = closeObject then .ok (.inl rest)
    else if first then
      if b = quoteByte then .ok (.inr rest) else .error .malformed
    else if b = commaByte then
      match skipBlanks rest with
      | [] => .error .ended
      | b :: rest => if b = quoteByte then .ok (.inr rest) else .error .malformed
    else .error .malformed

/-- What follows the colon behind a key. -/
def colon (bs : Bytes) : Except Fault Bytes :=
  match skipBlanks bs with
  | [] => .error .ended
  | b :: rest => if b = colonByte then .ok rest else .error .malformed

/-- The member whose key has been read. A field that is there twice is refused as soon as its
key is seen. -/
def member (key : String) (d : Draft) (bs : Bytes) : Except Fault (Draft × Bytes) :=
  match Field.all.find? fun f => f.key == key with
  | none => (colon bs).bind fun bs => (skipValue bs).map (d, ·)
  | some f =>
    if (d.get? f).isSome then .error .unwanted
    else
      (colon bs).bind fun bs => (strings bs).map fun (items, rest) => (d.set items f, rest)

/-- The members up to the closing bracket. -/
def members : (fuel : Nat) → (first : Bool) → Draft → Bytes → Except Fault (Draft × Bytes)
  | 0, _, _, _ => .error .ended
  | fuel + 1, first, d, bs =>
    (nextMember first bs).bind fun
      | .inl rest => .ok (d, rest)
      | .inr bs =>
        (text bs).bind fun (key, rest) =>
          (member key d rest).bind fun (d, rest) => members fuel false d rest

/-- A rule at the front of a string of bytes, and what follows it. -/
def read (bs : Bytes) : Except Fault (Rule × Bytes) :=
  match skipBlanks bs with
  | [] => .error .ended
  | b :: rest =>
    let draft : Except Fault (Draft × Bytes) :=
      if b = openList then positional Field.all true Draft.empty rest
      else if b = openObject then members (rest.length + 1) true Draft.empty rest
      else .error (unwantedValue (b :: rest))
    draft.map fun (d, rest) => (d.rule, rest)

end Rule

/-- A document that is one rule. -/
def readRule (bs : Bytes) : Except Fault Rule := document Rule.read bs

/-- A document that is a list of rules. -/
def readRules (bs : Bytes) : Except Fault (List Rule) := document (list Rule.read) bs

end BuildScript
