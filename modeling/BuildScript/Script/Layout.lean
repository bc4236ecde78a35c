import BuildScript.Script.Value

/-!
# Where tables keep their keys

Whole numbers from 1 on, the indices, have slots of their own up to some number. All other keys
share places. A key that has neither gets a place, and if none is left, slots and places are
dealt out anew.

Only the length of a table depends on this: it is an index whose value is followed by `nil`,
and where there are many of them, the slots decide which one is found.

* `Layout.ofSizes`, `Layout.resize`, `Layout.add`: room for keys;
* `Layout.touch`, `Layout.length`: the length, and what is remembered of it.
-/

namespace BuildScript.Script

/-- The index that a key is. -/
def Value.index? : Value → Option Nat
  | .number (.whole n) => if 0 < n then some n.toInt.toNat else none
  | _ => none

structure Layout where
  /-- How many indices have slots. -/
  slots : Nat
  /-- The index from which the length is looked for. -/
  hint : Nat
  /-- The keys in the shared places. Their number is a power of two, or zero. -/
  places : Array (Option Value)
  /-- From this place on there is none that was never used. -/
  fresh : Nat

namespace Layout

/-! ## Room -/

/-- The smallest power of two that is not below a number. There is none for zero. -/
def powerFrom (n : Nat) : Nat :=
  if n ≤ 1 then n else 1 <<< (Nat.log2 (n - 1) + 1)

def isPower (n : Nat) : Bool := n &&& (n - 1) == 0

/-- Room for some indices and at least some other keys. -/
def ofSizes (slots others : Nat) : Layout :=
  let count := powerFrom others
  ⟨slots, slots, Array.replicate count none, count⟩

def empty : Layout := ofSizes 0 0

def hasSlot (l : Layout) (key : Value) : Bool := key.index?.any (· ≤ l.slots)

def hasPlace (l : Layout) (key : Value) : Bool :=
  l.places.any fun p => p.any (·.rawEq key)

/-- The place among some number that a key is put in, if it is free. It matters for numbers
alone: for other keys nobody can tell. -/
def home (count : Nat) : Value → Nat
  | .number (.whole n) => n.toUInt64.toNat % max 1 (count - 1)
  | _ => 0

/-- The last place that was never used. -/
def freshPlace? (l : Layout) : Option Nat :=
  (List.range l.fresh).reverse.find? fun i => l.places[i]?.join.isNone

/-- Puts a key into a place. One whose value was taken away gives way. A key that is not at
home gives way, too, and moves to the last place that was never used; where the key there is at
home, the new one goes to that place. -/
def insert? (l : Layout) (isLive : Value → Bool) (key : Value) : Option Layout :=
  let i := home l.places.size key
  if l.places.isEmpty then none
  else
    match l.places[i]?.join.filter isLive with
    | none => some { l with places := l.places.setIfInBounds i (some key) }
    | some other =>
      l.freshPlace?.map fun f =>
        let (first, second) :=
          if home l.places.size other = i then (other, key) else (key, other)
        { l with
          places := (l.places.setIfInBounds i (some first)).setIfInBounds f (some second)
          fresh := f }

/-- Puts a key into a place, unless it has a slot. -/
def provide (isLive : Value → Bool) (l : Layout) (key : Value) : Layout :=
  if l.hasSlot key then l else (l.insert? isLive key).getD l

/-- The keys that have values in slots and places are given others. -/
def resize (l : Layout) (isLive : Value → Bool) (slots others : Nat) : Layout :=
  let beyond := (List.range' (slots + 1) (l.slots - slots)).map fun (i : Nat) => Value.whole i
  let moved := (beyond ++ l.places.toList.filterMap id).filter isLive
  moved.foldl (provide isLive) (ofSizes slots others)

/-- The largest power of two such that more than half of the indices up to it are among
some. -/
def slotsFor (indices : List Nat) : Nat :=
  (List.range (Nat.log2 indices.length + 2)).foldl (fun best i =>
    let size := 1 <<< i
    if size / 2 < (indices.filter (· ≤ size)).length then size else best) 0

/-- Room for one more key beside those that have values. -/
def add (l : Layout) (keys : List Value) (key : Value) : Layout :=
  let isLive (k : Value) : Bool := keys.any k.rawEq
  match l.insert? isLive key with
  | some l => l
  | none =>
    let indices := (key :: keys).filterMap Value.index?
    let slots := slotsFor indices
    let others := keys.length + 1 - (indices.filter (· ≤ slots)).length
    provide isLive (l.resize isLive slots others) key

/-! ## Lengths -/

/-- Looking at a slot behind the index that is remembered moves that one. -/
def touch (l : Layout) (key : Value) : Layout :=
  match key.index? with
  | some i => if l.hint < i ∧ i ≤ l.slots then { l with hint := i } else l
  | none => l

/-- More steps than halving any number of indices takes. -/
def halvings : Nat := 64

/-- An index that has a value and is followed by one without, between one that has, or zero,
and one that has not. -/
def search (has : Nat → Bool) : (fuel : Nat) → (low high : Nat) → Nat
  | 0, low, _ => low
  | fuel + 1, low, high =>
    if high ≤ low + 1 then low
    else
      let middle := (low + high) / 2
      if has middle then search has fuel middle high else search has fuel low middle

/-- The largest index. -/
def lastIndex : Nat := 9223372036854775807

/-- An index behind one that has a value, found by doubling: one that has a value, and one that
has not. -/
def double (has : Nat → Bool) : (fuel : Nat) → (low : Nat) → Nat × Nat
  | 0, low => (low, low)
  | fuel + 1, low =>
    let high := min (2 * low) lastIndex
    if !has high then (low, high)
    else if high = lastIndex then (high, high)
    else double has fuel high

/-- The length behind the last slot, which has a value. -/
def lengthBeyond (l : Layout) (has : Nat → Bool) : Nat :=
  if l.places.isEmpty || !has (l.slots + 1) then l.slots
  else
    let (low, high) := double has halvings (max 1 l.slots)
    search has halvings low high

/-- The length, with the indices that have values. It is looked for from the index that is
remembered, in the slots before the places. -/
def length (l : Layout) (has : Nat → Bool) : Nat × Layout :=
  if 0 < l.hint && !has l.hint then
    if 2 ≤ l.hint && has (l.hint - 1) then
      let found := l.hint - 1
      (found, if isPower l.slots && !isPower found then { l with hint := found } else l)
    else
      let found := search has halvings 0 l.hint
      (found, if isPower l.slots && l.slots / 2 < found then { l with hint := found } else l)
  else if l.hint < l.slots && !has (l.hint + 1) then (l.hint, l)
  else if l.hint < l.slots && !has l.slots then
    let found := search has halvings l.hint l.slots
    (found, { l with hint := found })
  else (l.lengthBeyond has, l)

end Layout

end BuildScript.Script
