import BuildScript.Proofs.Script.Programs
import Mathlib.Tactic.Common

/-!
# How a script begins

Before a script is evaluated, the name of its directory is set and modules are looked for there.
Nothing is asked for until the script itself is told of.

* `Store.table_setTable`, `Store.field_setField`, `Store.field_setField_of_ne`: tables and fields
  after one of them is set;
* `Environment.enter_of_fields`: a script is entered, and what it finds then;
* `Environment.run_announces`: telling of the script is the first request, and all others are those
  of the script.
-/

namespace BuildScript.Script

open BuildScript.Path

/-! ## Texts as keys -/

theorem Value.eq_string_of_rawEq {v : Value} {bs : Bytes} (h : v.rawEq (.string bs) = true) :
    v = .string bs := by
  cases v <;> simp_all [Value.rawEq]

theorem Value.eq_table_of_rawEq {v : Value} {id : Nat} (h : v.rawEq (.table id) = true) :
    v = .table id := by
  cases v <;> simp_all [Value.rawEq]

namespace Table

theorem find_put (bs : Bytes) (v : Value) (entries : List (Value × Value)) :
    ∃ key, (put (.string bs) v entries).find? (·.1.rawEq (.string bs)) = some (key, v) := by
  induction entries with
  | nil => exact ⟨.string bs, by simp [put, Value.rawEq]⟩
  | cons e rest ih =>
    unfold put
    by_cases same : e.1.rawEq (.string bs)
    · exact ⟨e.1, by simp [same]⟩
    · obtain ⟨key, found⟩ := ih
      exact ⟨key, by simp [same, found]⟩

theorem find_put_of_ne {bs other : Bytes} (h : bs ≠ other) (v : Value)
    (entries : List (Value × Value)) :
    (put (.string bs) v entries).find? (·.1.rawEq (.string other)) =
      entries.find? (·.1.rawEq (.string other)) := by
  induction entries with
  | nil => simp [put, Value.rawEq, h]
  | cons e rest ih =>
    unfold put
    by_cases same : e.1.rawEq (.string bs)
    · have key := Value.eq_string_of_rawEq same
      have differs : ¬ e.1.rawEq (.string other) = true := by simp [key, Value.rawEq, h]
      simp [same, differs]
    · rw [if_neg same, List.find?_cons, List.find?_cons, ih]

theorem get_set {v : Value} (hv : v.isNil = false) (t : Table) (bs : Bytes) :
    (t.set (.string bs) v).get (.string bs) = v := by
  obtain ⟨key, found⟩ := find_put bs v t.entries
  simp [set, get, normalKey, hv, found]

theorem get_set_of_ne {bs other : Bytes} (h : bs ≠ other) {v : Value} (hv : v.isNil = false)
    (t : Table) : (t.set (.string bs) v).get (.string other) = t.get (.string other) := by
  simp [set, get, normalKey, hv, find_put_of_ne h]

end Table

namespace Store

variable {s : Store} {id : Nat} {name other : String} {v : Value}

theorem table_setTable (s : Store) (id i : Nat) (t : Table) :
    (s.setTable id t).table i = if i = id ∧ i < s.tables.size then t else s.table i := by
  by_cases same : i = id
  · subst same
    by_cases inside : i < s.tables.size <;> simp [table, setTable, inside]
  · simp [table, setTable, same, Array.getElem?_setIfInBounds_ne (Ne.symm same)]

theorem field_setField (inside : id < s.tables.size) (hv : v.isNil = false) :
    (s.setField id name v).field id name = v := by
  rw [field, rawGet, setField, rawSet, table_setTable, if_pos ⟨rfl, inside⟩]
  exact Table.get_set hv _ _

theorem field_setField_of_ne (i : Nat) (hv : v.isNil = false)
    (h : i = id → Bytes.ofAscii name ≠ Bytes.ofAscii other) :
    (s.setField id name v).field i other = s.field i other := by
  rw [field, rawGet, setField, rawSet, table_setTable]
  by_cases same : i = id ∧ i < s.tables.size
  · rw [if_pos same]
    obtain ⟨rfl, -⟩ := same
    exact Table.get_set_of_ne (h rfl) hv _
  · rw [if_neg same]
    rfl

@[simp] theorem size_setField (s : Store) (id : Nat) (name : String) (v : Value) :
    (s.setField id name v).tables.size = s.tables.size := by
  simp [setField, rawSet, setTable]

/-- A table with a field is one of the store. -/
theorem lt_size_of_field (h : s.field id name ≠ .nil) : id < s.tables.size := by
  by_contra houtside
  refine h ?_
  rw [field, rawGet, table, Array.getElem?_eq_none (Nat.not_lt.1 houtside)]
  rfl

end Store

namespace Environment

open Run

/-! ## Entering -/

/-- What becomes of a store when a script is entered, where `path` names the places of modules. -/
def entered (s : Store) (packages : Nat) (path script : Bytes) : Store :=
  let dir := s.style.dirname script
  let s := s.setField s.globals Library.scriptDirName (.string dir)
  let s := (s.readTable s.globals (.ofAscii "package")).2
  let s := (s.readTable packages (.ofAscii "path")).2
  s.setField packages "path" (.string (searchDir s.style dir path))

/-- A script is entered without a request. -/
theorem enter_of_fields {s : Store} {packages : Nat} {path : Bytes}
    (hpackages : s.field s.globals "package" = .table packages)
    (hpath : s.field packages "path" = .string path) (steps : Nat) (script : Bytes) :
    enter (Evaluator.host (steps + 1)) script s =
      .done (.value (), entered s packages path script) := by
  let dir := s.style.dirname script
  let s₁ := s.setField s.globals Library.scriptDirName (.string dir)
  let s₂ := (s₁.readTable s.globals (.ofAscii "package")).2
  have hpackages₁ : s₁.field s.globals "package" = .table packages := by
    rw [← hpackages]
    exact Store.field_setField_of_ne _ rfl fun _ => by decide
  have hpath₂ : s₂.field packages "path" = .string path := by
    rw [← hpath]
    have kept : s₂.field packages "path" = s₁.field packages "path" := Store.rawGet_readTable ..
    exact kept.trans (Store.field_setField_of_ne _ rfl fun _ => by decide)
  have first := atHost_of_value
    (Evaluator.lookup_of_rawGet hpackages₁ rfl steps Evaluator.maxHops none none)
  have second := atHost_of_value
    (Evaluator.lookup_of_rawGet hpath₂ rfl steps Evaluator.maxHops none none)
  have prepend : prependSearchDir (Evaluator.host (steps + 1)) dir s₁ =
      .done (.value (), entered s packages path script) := by
    unfold prependSearchDir
    refine (bind_of_value rfl _).trans ?_
    refine (bind_of_value rfl _).trans ?_
    refine (bind_of_value first _).trans ?_
    refine (bind_of_value rfl _).trans ?_
    refine (bind_of_value second _).trans ?_
    exact (bind_of_value rfl _).trans rfl
  refine (bind_of_value rfl _).trans ?_
  exact (bind_of_value rfl _).trans prepend

/-! ## The first store -/

/-- The table of the modules, and where they are looked for. -/
theorem start_fields (style : Style) :
    (start style).field (start style).globals "package" = .table Place.packages.id ∧
      (start style).field Place.packages.id "path" = .ofAscii defaultPath := by
  have hsame : ((start style).field (start style).globals "package").rawEq
        (.table Place.packages.id) = true ∧
      ((start style).field Place.packages.id "path").rawEq (.ofAscii defaultPath) = true := by
    cases style <;> decide +kernel
  exact ⟨Value.eq_table_of_rawEq hsame.1, Value.eq_string_of_rawEq hsame.2⟩

/-- A script is entered and told of, and what follows makes requests of its own only. -/
theorem exists_run_eq (h : Host) (hh : h.Scripted) (path source : Bytes)
    (arguments : List String) :
    ∃ rest : Run Unit, run h path source arguments =
      (enter h path >>= fun _ => ask (.report path) >>= fun _ => rest) ∧ rest.Scripted := by
  refine ⟨_, rfl, scripted_nestedCalls.bind fun nested => ?_⟩
  split
  · exact scripted_fail _
  · refine (scripted_newProgram _ _).bind fun main => ?_
    exact (hh.call _ _).atHost.bind fun _ => scripted_pure _

/-- The first request of a script tells of it. Without any step it does not come to that. -/
theorem run_announces (style : Style) (steps : Nat) (path source : Bytes)
    (arguments : List String) :
    (run (Evaluator.host steps) path source arguments (start style)).Announces path := by
  cases steps with
  | zero => exact .stuck _
  | succ steps =>
    let s := entered (start style) Place.packages.id (Bytes.ofAscii defaultPath) path
    have begins : enter (Evaluator.host (steps + 1)) path (start style) = .done (.value (), s) :=
      enter_of_fields (start_fields style).1 (start_fields style).2 steps path
    obtain ⟨rest, hrun, hrest⟩ := exists_run_eq _ (Evaluator.host_scripted (steps + 1)) path source
      arguments
    have first : run (Evaluator.host (steps + 1)) path source arguments (start style) =
        .ask (.report path) fun _ => rest s := by
      rw [hrun]
      exact bind_of_value begins _
    rw [first]
    exact .told (hrest s)

end Environment

end BuildScript.Script
