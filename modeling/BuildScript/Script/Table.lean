import BuildScript.Script.Layout

/-!
# Tables

A table has values under keys. A double that is whole is the same key as the whole number.

* `Table.get`, `Table.set`: single keys;
* `Table.sequence`, `Table.length`: the values under the indices from 1 on, and how many of
  them there are;
* `Table.ofList`, `Table.sized`, `Table.setList`: tables that are written out.
-/

namespace BuildScript.Script

structure Table where
  /-- The keys that have values. -/
  entries : List (Value × Value)
  layout : Layout
  /-- The table that tells what stands in for missing keys. -/
  metatable : Option Nat

namespace Table

def empty : Table := ⟨[], .empty, none⟩

/-- An empty table with room for some indices and some other keys. -/
def sized (slots others : Nat) : Table := ⟨[], .ofSizes slots others, none⟩

/-! ## Single keys -/

def normalKey : Value → Value
  | .number n => match n.toWhole? with
    | some w => .number (.whole w)
    | none => .number n
  | k => k

def keys (t : Table) : List Value := t.entries.map Prod.fst

def get (t : Table) (key : Value) : Value :=
  match t.entries.find? fun e => e.1.rawEq key with
  | some e => e.2
  | none => .nil

/-- A value put under a key in a list of entries. -/
def put (key value : Value) : List (Value × Value) → List (Value × Value)
  | [] => [(key, value)]
  | e :: rest => if e.1.rawEq key then (e.1, value) :: rest else e :: put key value rest

/-- Notes that a key was looked at. -/
def touch (t : Table) (key : Value) : Table := { t with layout := t.layout.touch key }

@[simp] theorem get_touch (t : Table) (key other : Value) :
    (t.touch key).get other = t.get other := rfl

/-- Puts a value under a key. `nil` takes the key away. -/
def set (t : Table) (key value : Value) : Table :=
  let key := normalKey key
  if value.isNil then
    { t.touch key with entries := t.entries.filter fun e => !e.1.rawEq key }
  else
    let layout :=
      if t.layout.hasSlot key || t.layout.hasPlace key then t.layout.touch key
      else t.layout.add t.keys key
    { t with entries := put key value t.entries, layout }

/-! ## Indices -/

def at_ (t : Table) (i : Nat) : Value := t.get (.whole i)

/-- Values from an index on, up to the first `nil`. There are not more than entries. -/
def sequenceFrom (t : Table) : (fuel : Nat) → (i : Nat) → List Value
  | 0, _ => []
  | fuel + 1, i =>
    let v := t.at_ i
    if v.isNil then [] else v :: t.sequenceFrom fuel (i + 1)

/-- The values from index 1 up to the first `nil`. -/
def sequence (t : Table) : List Value := t.sequenceFrom t.entries.length 1

/-- Notes that indices were looked at in order. -/
def touchAll (t : Table) (indices : List Nat) : Table :=
  indices.foldl (fun (t : Table) (i : Nat) => t.touch (.whole i)) t

@[simp] theorem get_touchAll (t : Table) (indices : List Nat) (key : Value) :
    (t.touchAll indices).get key = t.get key := by
  induction indices generalizing t with
  | nil => rfl
  | cons i rest ih => exact ih (t.touch (.whole i))

/-- The length, and the table after it was looked for. -/
def length (t : Table) : Nat × Table :=
  let found := t.layout.length fun i => !(t.at_ i).isNil
  (found.1, { t with layout := found.2 })

@[simp] theorem get_length (t : Table) (key : Value) : t.length.2.get key = t.get key := rfl

/-- Puts values under the indices behind some others. All of them get slots. -/
def setList (t : Table) (before : Nat) (values : List Value) : Table :=
  let last := before + values.length
  let isLive (k : Value) : Bool := t.keys.any k.rawEq
  let layout :=
    if t.layout.slots < last then t.layout.resize isLive last t.layout.places.size else t.layout
  let isOther (e : Value × Value) : Bool := !e.1.index?.any fun i => before < i && i ≤ last
  let given := (values.zipIdx (before + 1)).filter fun p => !p.1.isNil
  { t with
    entries := t.entries.filter isOther ++ given.map fun p => (.whole p.2, p.1)
    layout }

/-- A table of values with the indices from 1 on. -/
def ofList (values : List Value) : Table := empty.setList 0 values

end Table

end BuildScript.Script
