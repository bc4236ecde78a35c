import BuildScript.Proofs.Script.Entering
import Mathlib.Algebra.Group.Nat.Defs
import Mathlib.Data.Fintype.Card

/-!
# Arguments of a glob

What a glob is given stands in its arguments and in the tables among them. Reading it changes what
is noted about tables, but none of their values, so it can be said beforehand what is read.

* `Table.IsSequence`, `Table.isSequence_sequence`: the values of a table up to the first `nil`;
* `Table.sequence_ofList`: a table that is made of values has them as its sequence;
* `Store.amongst`, `Library.flatten_of_sameEntries`: the values among arguments;
* `Library.leading`: the texts among them, up to the first value that has none;
* `Library.glob_of_field`: a glob is a fold over these values.
-/

namespace BuildScript.Script

open Glob BuildScript.Path

/-! ## Sequences -/

theorem Value.rawEq_whole {i j : Nat} (hi : i < 2 ^ 64) (hj : j < 2 ^ 64) :
    (Value.whole i).rawEq (Value.whole j) = decide (i = j) := by
  have heq : (Int64.ofInt i = Int64.ofInt j) ↔ i = j := by
    constructor
    · intro h
      have hint := congrArg Int64.toInt h
      rw [Int64.toInt_ofInt, Int64.toInt_ofInt, Int64.size, Int.bmod_def, Int.bmod_def] at hint
      omega
    · rintro rfl
      rfl
  by_cases h : i = j
  · subst h
    simp [Value.whole, Value.rawEq, Number.eq]
  · have hne : Int64.ofInt i ≠ Int64.ofInt j := fun he => h (heq.1 he)
    simp [Value.whole, Value.rawEq, Number.eq, h, hne]

/-- A key stands for one index only. -/
theorem Value.whole_of_rawEq {key : Value} {i j : Nat} (hi : key.rawEq (.whole i) = true)
    (hj : key.rawEq (.whole j) = true) : Int64.ofInt i = Int64.ofInt j := by
  cases key with
  | number n =>
    cases n with
    | whole a =>
      have hai : a = Int64.ofInt i := by simpa [rawEq, whole, Number.eq] using hi
      have haj : a = Int64.ofInt j := by simpa [rawEq, whole, Number.eq] using hj
      exact hai.symm.trans haj
    | float x =>
      have hxi : Number.wholeOfFloat? x = some (Int64.ofInt i) := by
        simpa [rawEq, whole, Number.eq] using hi
      have hxj : Number.wholeOfFloat? x = some (Int64.ofInt j) := by
        simpa [rawEq, whole, Number.eq] using hj
      exact Option.some.inj (hxi.symm.trans hxj)
    | undefined negative => cases hi
  | _ => cases hi

namespace Table

/-- The values of a table depend on its entries alone. -/
theorem sequence_congr {t t' : Table} (h : t'.entries = t.entries) : t'.sequence = t.sequence := by
  have hfrom : ∀ fuel i, t'.sequenceFrom fuel i = t.sequenceFrom fuel i := by
    intro fuel
    induction fuel with
    | zero => exact fun _ => rfl
    | succ fuel ih =>
      intro i
      have hat : t'.at_ i = t.at_ i := by rw [at_, at_, get, get, h]
      rw [sequenceFrom, sequenceFrom, hat, ih]
  rw [sequence, sequence, h, hfrom]

/-- Values under the indices from 1 on, with `nil` behind them. -/
def IsSequence (t : Table) (values : List Value) : Prop :=
  (∀ k v, values[k]? = some v → t.at_ (k + 1) = v ∧ v.isNil = false) ∧
    (t.at_ (values.length + 1)).isNil = true

theorem IsSequence.length_le {t : Table} {values others : List Value} (h : t.IsSequence values)
    (h' : t.IsSequence others) : values.length ≤ others.length := by
  by_contra hless
  obtain ⟨hat, hsome⟩ := h.1 others.length _ (List.getElem?_eq_getElem (by omega))
  have hend := h'.2
  rw [hat, hsome] at hend
  cases hend

/-- There is one such list of values. -/
theorem IsSequence.unique {t : Table} {values others : List Value} (h : t.IsSequence values)
    (h' : t.IsSequence others) : values = others := by
  refine List.ext_getElem (Nat.le_antisymm (h.length_le h') (h'.length_le h)) ?_
  intro k hk hk'
  rw [← (h.1 k _ (List.getElem?_eq_getElem hk)).1, ← (h'.1 k _ (List.getElem?_eq_getElem hk')).1]

/-- A value that is there is among the entries. -/
theorem exists_of_at_ {t : Table} {i : Nat} (h : (t.at_ i).isNil = false) :
    ∃ k : Fin t.entries.length, t.entries[k].1.rawEq (.whole i) = true := by
  rw [at_, get] at h
  cases hfind : t.entries.find? fun e => e.1.rawEq (.whole i) with
  | none =>
    rw [hfind] at h
    cases h
  | some e =>
    obtain ⟨k, hk, he⟩ := List.getElem_of_mem (List.mem_of_find?_eq_some hfind)
    exact ⟨⟨k, hk⟩, by simpa [he] using List.find?_some hfind⟩

/-- There are no more values under the first indices than there are entries. -/
theorem le_length_entries {t : Table} {n : Nat} (hn : n < 2 ^ 64)
    (h : ∀ i, i < n → (t.at_ (i + 1)).isNil = false) : n ≤ t.entries.length := by
  choose entry hentry using fun i : Fin n => exists_of_at_ (h i i.2)
  have hinj : Function.Injective entry := by
    intro i j hij
    have hwhole := Value.whole_of_rawEq (hentry i) (hij ▸ hentry j)
    have hself : (Value.whole ((i + 1 : Nat) : Int)).rawEq (Value.whole ((j + 1 : Nat) : Int)) =
        true := by
      rw [Value.whole, Value.whole, hwhole]
      simp [Value.rawEq, Number.eq]
    rw [Value.rawEq_whole (by omega) (by omega), decide_eq_true_iff] at hself
    exact Fin.ext (by omega)
  simpa using Fintype.card_le_of_injective _ hinj

/-- What is found from an index on: values that are there, as many as there is fuel for or with
`nil` behind them. -/
theorem sequenceFrom_spec (t : Table) (fuel i : Nat) :
    (∀ k v, (t.sequenceFrom fuel i)[k]? = some v → t.at_ (i + k) = v ∧ v.isNil = false) ∧
      ((t.sequenceFrom fuel i).length = fuel ∨
        (t.sequenceFrom fuel i).length < fuel ∧
          (t.at_ (i + (t.sequenceFrom fuel i).length)).isNil = true) := by
  induction fuel generalizing i with
  | zero => exact ⟨by simp [sequenceFrom], .inl rfl⟩
  | succ fuel ih =>
    rw [sequenceFrom]
    by_cases hnil : (t.at_ i).isNil
    · simp [hnil]
    · obtain ⟨hvalues, hend⟩ := ih (i + 1)
      simp only [hnil, Bool.false_eq_true, if_false, List.length_cons]
      refine ⟨fun k v hv => ?_, ?_⟩
      · cases k with
        | zero =>
          obtain rfl : t.at_ i = v := by simpa using hv
          exact ⟨rfl, by simpa using hnil⟩
        | succ k =>
          have hrest := hvalues k v (by simpa using hv)
          rwa [Nat.add_assoc, Nat.add_comm 1 k] at hrest
      · rcases hend with hfull | ⟨hless, hstop⟩
        · exact .inl (by rw [hfull])
        · refine .inr ⟨by omega, ?_⟩
          rwa [Nat.add_assoc, Nat.add_comm 1] at hstop

/-- The sequence of a table is the values from index 1 up to the first `nil`. -/
theorem isSequence_sequence {t : Table} (hlen : t.entries.length + 1 < 2 ^ 64) :
    t.IsSequence t.sequence := by
  obtain ⟨hvalues, hend⟩ := t.sequenceFrom_spec t.entries.length 1
  have hpresent : ∀ k v, t.sequence[k]? = some v → t.at_ (k + 1) = v ∧ v.isNil = false := by
    intro k v hv
    rw [Nat.add_comm]
    exact hvalues k v hv
  refine ⟨hpresent, ?_⟩
  rcases hend with hfull | ⟨-, hstop⟩
  · -- one value more would be one more than there are entries
    by_contra hnil
    have hall : ∀ i, i < t.entries.length + 1 → (t.at_ (i + 1)).isNil = false := by
      intro i hi
      by_cases hlast : i < t.sequence.length
      · obtain ⟨hat, hsome⟩ := hpresent i _ (List.getElem?_eq_getElem hlast)
        rw [hat, hsome]
      · obtain rfl : i = t.sequence.length := by
          have hlength : t.sequence.length = t.entries.length := hfull
          omega
        simpa using hnil
    have hle := le_length_entries hlen hall
    omega
  · rw [Nat.add_comm]
    exact hstop

theorem find_indexed {values : List Value} {k j : Nat} {v : Value}
    (hlen : k + values.length ≤ 2 ^ 63) (hv : values[j]? = some v) :
    ((values.zipIdx k).map fun p => (Value.whole p.2, p.1)).find?
      (fun e => e.1.rawEq (.whole (k + j : Nat))) = some (.whole (k + j : Nat), v) := by
  induction values generalizing k j with
  | nil => cases hv
  | cons first values ih =>
    rw [List.length_cons] at hlen
    rw [List.zipIdx_cons, List.map_cons]
    cases j with
    | zero =>
      obtain rfl : first = v := by simpa using hv
      rw [List.find?_cons_of_pos]
      · rfl
      · simp only [Nat.add_zero]
        rw [Value.rawEq_whole (by omega) (by omega), decide_eq_true rfl]
    | succ j =>
      have hmore : values[j]? = some v := by simpa using hv
      have hj : j < values.length := (List.getElem?_eq_some_iff.1 hmore).1
      have hshift : k + (j + 1) = k + 1 + j := by omega
      rw [List.find?_cons_of_neg, hshift]
      · exact ih (by omega) hmore
      · rw [Value.rawEq_whole (by omega) (by omega), decide_eq_false (by omega)]
        exact Bool.false_ne_true

section
variable {values : List Value} (hsome : ∀ v ∈ values, v.isNil = false)
include hsome

theorem entries_ofList :
    (ofList values).entries = (values.zipIdx 1).map fun p => (Value.whole p.2, p.1) := by
  have hall : (values.zipIdx 1).filter (fun p => !p.1.isNil) = values.zipIdx 1 := by
    rw [List.filter_eq_self]
    intro p hp
    have hmem : p.1 ∈ values := List.fst_mem_of_mem_zipIdx hp
    simp [hsome p.1 hmem]
  simp [ofList, setList, empty, hall]

theorem isSequence_ofList (hlen : values.length < 2 ^ 63) : (ofList values).IsSequence values := by
  constructor
  · intro k v hv
    have hfind := find_indexed (k := 1) (by omega) hv
    rw [Nat.add_comm 1 k] at hfind
    rw [at_, get, entries_ofList hsome, hfind]
    exact ⟨rfl, hsome v (List.mem_of_getElem? hv)⟩
  · have hfind : (ofList values).entries.find?
        (fun e => e.1.rawEq (.whole (values.length + 1 : Nat))) = none := by
      rw [entries_ofList hsome, List.find?_eq_none]
      intro e he
      obtain ⟨⟨v, i⟩, hi, rfl⟩ := List.mem_map.1 he
      have hlt : i < 1 + values.length := List.snd_lt_add_of_mem_zipIdx hi
      rw [Value.rawEq_whole (by omega) (by omega), decide_eq_true_iff]
      omega
    rw [at_, get, hfind]
    rfl

/-- A table that is made of values has them as its sequence. -/
theorem sequence_ofList (hlen : values.length < 2 ^ 63) : (ofList values).sequence = values := by
  have hlength : (ofList values).entries.length = values.length := by
    rw [entries_ofList hsome, List.length_map, List.length_zipIdx]
  exact (isSequence_sequence (by omega)).unique (isSequence_ofList hsome hlen)

end

end Table

/-! ## Arguments -/

/-- Tables that have the same entries, whatever was looked at. -/
def SameEntries (s t : Store) : Prop := ∀ id, (t.table id).entries = (s.table id).entries

theorem SameEntries.setTable {s t : Store} (h : SameEntries s t) {id : Nat} {table : Table}
    (htable : table.entries = (t.table id).entries) : SameEntries s (t.setTable id table) := by
  intro i
  rw [← h i, Store.table_setTable]
  by_cases hi : i = id ∧ i < t.tables.size
  · rw [if_pos hi, htable, hi.1]
  · rw [if_neg hi]

theorem Table.entries_touchAll (t : Table) (indices : List Nat) :
    (t.touchAll indices).entries = t.entries := by
  induction indices generalizing t with
  | nil => rfl
  | cons i indices ih => exact ih (t.touch (.whole i))

/-- What an argument stands for: itself, or the values of a table that it is. -/
def Store.valuesOf (s : Store) (p : Value × Nat) : List (Nat × Value) :=
  match p.1 with
  | .table id => (s.table id).sequence.map (p.2, ·)
  | v => [(p.2, v)]

/-- The values among arguments, each with the position of the argument that it is, or in whose
table it lies. -/
def Store.amongst (s : Store) (arguments : List Value) : List (Nat × Value) :=
  (arguments.zipIdx 1).flatMap s.valuesOf

namespace Library

def readValues (p : Value × Nat) : Run (List (Nat × Value)) :=
  match p.1 with
  | .table id => do return (← Run.make (·.tableSequence id)).map (p.2, ·)
  | v => return [(p.2, v)]

theorem readValues_of_sameEntries {s t : Store} (h : SameEntries s t) (p : Value × Nat) :
    ∃ t', readValues p t = .done (.value (s.valuesOf p), t') ∧ SameEntries s t' := by
  obtain ⟨v, i⟩ := p
  cases v with
  | table id =>
    refine ⟨(t.tableSequence id).2, ?_, h.setTable (Table.entries_touchAll _ _)⟩
    have hsame : (t.tableSequence id).1 = (s.table id).sequence := Table.sequence_congr (h id)
    refine (Run.bind_of_value rfl _).trans ?_
    rw [hsame]
    rfl
  | _ => exact ⟨t, rfl, h⟩

theorem flatten_of_sameEntries {s t : Store} (h : SameEntries s t) (arguments : List Value) :
    ∃ t', flatten arguments t = .done (.value (s.amongst arguments), t') := by
  obtain ⟨t', hmap, -⟩ := Run.mapM_of_values
    (fun p _ ht => readValues_of_sameEntries ht p) (arguments.zipIdx 1) h
  have hflatten : flatten arguments t =
      (List.flatten <$> (arguments.zipIdx 1).mapM readValues) t := rfl
  refine ⟨t', ?_⟩
  rw [hflatten]
  exact Run.bind_of_value hmap _

theorem scriptDir_of_field {s : Store} {dir : Bytes}
    (hdir : (s.field s.globals scriptDirName).toBytes? = some dir) (steps : Nat) :
    ∃ t, scriptDir (Evaluator.host (steps + 1)) s = .done (.value dir, t) ∧ t.style = s.style ∧
      SameEntries s t := by
  obtain ⟨v, hv⟩ : ∃ v, s.field s.globals scriptDirName = v := ⟨_, rfl⟩
  rw [hv] at hdir
  have hpresent : v.isNil = false := by
    cases v with
    | nil => cases hdir
    | _ => rfl
  have hlookup := Run.atHost_of_value
    (Evaluator.lookup_of_rawGet hv hpresent steps Evaluator.maxHops none none)
  refine ⟨(s.readTable s.globals (.ofAscii scriptDirName)).2, ?_, rfl,
    SameEntries.setTable (fun _ => rfl) rfl⟩
  refine (Run.bind_of_value rfl _).trans ?_
  refine (Run.bind_of_value hlookup _).trans ?_
  simp only [wantString?, wantString, hpresent, hdir]
  rfl

/-- The texts in front of the first value that has none, and that value. -/
def leading : List (Nat × Value) → List Bytes × Option (Nat × Value)
  | [] => ([], none)
  | p :: values =>
    match p.2.toBytes? with
    | some text => (text :: (leading values).1, (leading values).2)
    | none => ([], some p)

/-- What becomes of a set with one value among the arguments of `glob`. -/
def gather (style : Style) (dir : Bytes) (set : MatchSet) (p : Nat × Value) : Run MatchSet := do
  let pattern ← stringAmong "glob" p.1 p.2
  applyPattern set (rebase style dir pattern)

/-- A value without a text is refused, and nothing is looked at. -/
theorem gather_of_none {p : Nat × Value} (hp : p.2.toBytes? = none) (style : Style)
    (dir : Bytes) (set : MatchSet) (store : Store) : gather style dir set p store =
      .done (.raised (.fault (wrongArgument p.1 "glob" "string" p.2.exactTypeName)), store) := by
  simp only [gather, stringAmong, hp]
  rfl

/-- A glob whose arguments were read. -/
theorem glob_of_field {s : Store} {dir : Bytes}
    (hdir : (s.field s.globals scriptDirName).toBytes? = some dir) (steps : Nat)
    (arguments : List Value) : ∃ t, glob (Evaluator.host (steps + 1)) arguments s =
      ((s.amongst arguments).foldlM (gather s.style dir) MatchSet.empty >>= fun set => do
        return [← Run.newTable (Table.ofList (set.paths.map .string))]) t := by
  obtain ⟨t, hread, hstyle, hsame⟩ := scriptDir_of_field hdir steps
  obtain ⟨t', hflatten⟩ := flatten_of_sameEntries hsame arguments
  refine ⟨t', ?_⟩
  refine (Run.bind_of_value hread _).trans ?_
  refine (Run.bind_of_value rfl _).trans ?_
  refine (Run.bind_of_value hflatten _).trans ?_
  rw [hstyle]
  rfl

end Library

theorem Store.table_addTable (s : Store) (t : Table) :
    (s.addTable t).2.table (s.addTable t).1 = t := by
  simp [addTable, table]

end BuildScript.Script
