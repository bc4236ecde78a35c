import BuildScript.Proofs.Script.Arguments
import BuildScript.Proofs.Text.Utf8
import BuildScript.Rules.Rule

/-!
# Lists of rules in tables

A rule is described by a table, and each of its lists by a table in a field of it. A field is read
and its items are checked before the next field is looked at, and nothing is asked for on the way.

* `Store.ListOf`, `Store.Refuses`: values that are lists of a rule, and what is wrong with others;
* `Library.FieldsRead`: what fields hold, one read after the other;
* `Library.mapM_ruleList_of_gives`, `Library.mapM_ruleList_of_refused`: what is made of them;
* `Store.Leads`, `Library.fieldsRead_of_leads`: fields of tables in which no function stands in for
  missing values.
-/

namespace BuildScript.Script

/-! ## Steps without a request -/

theorem Action.bind_done {α : Type} (x : Action α) : x.bind .done = x := by
  induction x with
  | done a => rfl
  | ask q next ih =>
    rw [bind]
    exact congrArg (ask q) (funext ih)

namespace Run

variable {α β : Type}

instance : LawfulMonad Run := by
  refine LawfulMonad.mk' Run ?_ (fun _ _ => rfl) bind_assoc
  intro α x
  funext store
  refine Eq.trans ?_ (Action.bind_done (x store))
  change (x store).bind _ = _
  congr
  funext r
  obtain ⟨a | v | _, store'⟩ := r <;> rfl

theorem bind_of_raised {x : Run α} {s t : Store} {v : Value} (hx : x s = .done (.raised v, t))
    (f : α → Run β) : (x >>= f) s = .done (.raised v, t) := by
  change (x s).bind _ = _
  rw [hx]
  rfl

end Run

/-! ## Lists of a rule -/

/-- A text as scripts have it. -/
def Value.ofText (text : String) : Value := .string (Utf8.encode text)

/-- Whether a value is a list of a rule with these texts. Without a value there are none. -/
inductive Store.ListOf (s : Store) : Value → List String → Prop
  | missing : s.ListOf .nil []
  | table {id : Nat} {texts : List String} (h : (s.table id).sequence = texts.map .ofText) :
    s.ListOf (.table id) texts

namespace Library

/-- What is said of an item that is not a text. -/
inductive RefusesItem (field : String) (index : Nat) : Value → Fault → Prop
  | type {v : Value} (h : ∀ bs, v ≠ .string bs) : RefusesItem field index v
    (.external ("rule field '" ++ field ++ "' item " ++ toString index ++
      " must be a string, got " ++ v.exactTypeName))
  | encoding {bs : Bytes} (h : Utf8.decode? bs = none) : RefusesItem field index (.string bs)
    (.external ("rule field '" ++ field ++ "' item " ++ toString index ++ " is not valid UTF-8"))

end Library

/-- What is said of a value that is not a list of a rule: that it is not a table, or something
about its first item that is not a text. -/
inductive Store.Refuses (s : Store) (field : String) : Value → Fault → Prop
  | type {v : Value} (hnil : v ≠ .nil) (htable : ∀ id, v ≠ .table id) : s.Refuses field v
    (.external ("rule field '" ++ field ++ "' must be a table, got " ++ v.exactTypeName))
  | item {id : Nat} {texts : List String} {item : Value} {rest : List Value} {fault : Fault}
    (h : (s.table id).sequence = texts.map .ofText ++ item :: rest)
    (hitem : Library.RefusesItem field (texts.length + 1) item fault) :
    s.Refuses field (.table id) fault

/-- A value is a text, or there is something to be said of it. -/
theorem Library.ofText_or_refuses (field : String) (index : Nat) (v : Value) :
    (∃ text, v = .ofText text) ∨ ∃ fault, RefusesItem field index v fault := by
  cases v with
  | string bs =>
    cases hdecode : Utf8.decode? bs with
    | none => exact .inr ⟨_, .encoding hdecode⟩
    | some text => exact .inl ⟨text, congrArg Value.string (Utf8.encode_of_decode? hdecode).symm⟩
  | _ => exact .inr ⟨_, .type (by simp)⟩

/-- Among values there is a first one that is not a text, or there are texts only. -/
theorem Library.texts_or_refuses (field : String) (values : List Value) (index : Nat) :
    (∃ texts : List String, values = texts.map Value.ofText) ∨
      ∃ (texts : List String) (item : Value) (rest : List Value) (fault : Fault),
        values = texts.map Value.ofText ++ item :: rest ∧
          RefusesItem field (texts.length + index) item fault := by
  induction values generalizing index with
  | nil => exact .inl ⟨[], rfl⟩
  | cons v values ih =>
    obtain ⟨text, rfl⟩ | ⟨fault, hrefuses⟩ := ofText_or_refuses field index v
    · obtain ⟨texts, rfl⟩ | ⟨texts, item, rest, fault, rfl, hrefuses⟩ := ih (index + 1)
      · exact .inl ⟨text :: texts, rfl⟩
      · refine .inr ⟨text :: texts, item, rest, fault, rfl, ?_⟩
        rw [List.length_cons, Nat.add_assoc, Nat.add_comm 1 index]
        exact hrefuses
    · exact .inr ⟨[], v, values, fault, rfl, by simpa using hrefuses⟩

/-- A value is a list of a rule, or there is something to be said of it. -/
theorem Store.listOf_or_refuses (s : Store) (field : String) (v : Value) :
    (∃ texts, s.ListOf v texts) ∨ ∃ fault, s.Refuses field v fault := by
  cases v with
  | nil => exact .inl ⟨[], .missing⟩
  | table id =>
    obtain ⟨texts, h⟩ | ⟨texts, item, rest, fault, h, hrefuses⟩ :=
      Library.texts_or_refuses field (s.table id).sequence 1
    · exact .inl ⟨texts, .table h⟩
    · exact .inr ⟨fault, .item h hrefuses⟩
  | _ => exact .inr ⟨_, .type (by simp) (by simp)⟩

/-- Only the entries of tables matter. -/
theorem Store.ListOf.congr {s t : Store} (h : SameEntries s t) {v : Value} {texts : List String} :
    t.ListOf v texts ↔ s.ListOf v texts := by
  have hsequence : ∀ id, (t.table id).sequence = (s.table id).sequence :=
    fun id => Table.sequence_congr (h id)
  constructor
  · rintro (_ | hvalues)
    · exact .missing
    · exact .table ((hsequence _).symm.trans hvalues)
  · rintro (_ | hvalues)
    · exact .missing
    · exact .table ((hsequence _).trans hvalues)

theorem Store.Refuses.congr {s t : Store} (h : SameEntries s t) {field : String} {v : Value}
    {fault : Fault} (hrefuses : s.Refuses field v fault) : t.Refuses field v fault := by
  cases hrefuses with
  | type hnil htable => exact .type hnil htable
  | item hvalues hitem => exact .item ((Table.sequence_congr (h _)).trans hvalues) hitem

namespace Library

/-! ## Reading lists -/

theorem ruleItem_ofText (field : String) (index : Nat) (text : String) (s : Store) :
    ruleItem field index (.ofText text) s = .done (.value text, s) := by
  have hpure : ruleItem field index (.ofText text) = pure text := by
    simp only [ruleItem, Value.ofText, Utf8.decode?_encode]
  rw [hpure]
  rfl

theorem ruleItem_of_refuses {field : String} {index : Nat} {v : Value} {fault : Fault}
    (h : RefusesItem field index v fault) (s : Store) :
    ruleItem field index v s = .done (.raised (.fault fault), s) := by
  cases h with
  | type hstring =>
    cases v with
    | string bs => exact absurd rfl (hstring bs)
    | _ => rfl
  | @encoding bs hdecode =>
    have hfail : ruleItem field index (.string bs) = Run.fail (.external
        ("rule field '" ++ field ++ "' item " ++ toString index ++ " is not valid UTF-8")) := by
      simp only [ruleItem, hdecode]
    rw [hfail]
    rfl

/-- The items of a list, the first with the given index. -/
def ruleItems (field : String) (index : Nat) (values : List Value) : Run (List String) :=
  (values.zipIdx index).mapM fun p => ruleItem field p.2 p.1

theorem ruleItems_cons (field : String) (index : Nat) (v : Value) (values : List Value) :
    ruleItems field index (v :: values) = do
      let text ← ruleItem field index v
      let texts ← ruleItems field (index + 1) values
      return text :: texts := by
  rw [ruleItems, List.zipIdx_cons, List.mapM_cons]
  rfl

theorem ruleItems_ofText (field : String) (index : Nat) (texts : List String) (s : Store) :
    ruleItems field index (texts.map .ofText) s = .done (.value texts, s) := by
  induction texts generalizing index with
  | nil => rfl
  | cons text texts ih =>
    rw [List.map_cons, ruleItems_cons]
    refine (Run.bind_of_value (ruleItem_ofText field index text s) _).trans ?_
    exact (Run.bind_of_value (ih (index + 1)) _).trans rfl

theorem ruleItems_of_refuses {field : String} {index : Nat} {texts : List String} {item : Value}
    {fault : Fault} (h : RefusesItem field (texts.length + index) item fault) (rest : List Value)
    (s : Store) : ruleItems field index (texts.map .ofText ++ item :: rest) s =
      .done (.raised (.fault fault), s) := by
  induction texts generalizing index with
  | nil =>
    rw [List.length_nil, Nat.zero_add] at h
    rw [List.map_nil, List.nil_append, ruleItems_cons]
    exact Run.bind_of_raised (ruleItem_of_refuses h s) _
  | cons text texts ih =>
    rw [List.length_cons, Nat.add_assoc, Nat.add_comm 1 index] at h
    rw [List.map_cons, List.cons_append, ruleItems_cons]
    refine (Run.bind_of_value (ruleItem_ofText field index text s) _).trans ?_
    exact Run.bind_of_raised (ih h) _

/-- What a field was found to hold, and the store that this is looked at in. -/
structure Reading where
  field : Rule.Field
  value : Value
  store : Store

namespace Reading

/-- Whether the field holds a list with these texts. -/
def Gives (r : Reading) (texts : List String) : Prop := r.store.ListOf r.value texts

/-- What is said of the field otherwise. -/
def Refused (r : Reading) (fault : Fault) : Prop := r.store.Refuses r.field.key r.value fault

/-- The store after the items in the field were looked at. -/
def after (r : Reading) : Store :=
  match r.value with
  | .table id => (r.store.tableSequence id).2
  | _ => r.store

end Reading

/-- What fields of a table hold, one read after the other. Nothing is asked for on the way, and
nothing is raised. -/
inductive FieldsRead (h : Host) (id : Nat) : Store → List Rule.Field → List Reading → Prop
  | nil {s : Store} : FieldsRead h id s [] []
  | cons {s : Store} {r : Reading} {fields : List Rule.Field} {readings : List Reading}
    (first : Run.atHost (h.lookup (.table id) (.ofAscii r.field.key)) s =
      .done (.value r.value, r.store))
    (rest : FieldsRead h id r.after fields readings) :
    FieldsRead h id s (r.field :: fields) (r :: readings)

variable {h : Host} {id : Nat} {s : Store}

theorem ruleList_of_gives {r : Reading} {texts : List String}
    (hread : Run.atHost (h.lookup (.table id) (.ofAscii r.field.key)) s =
      .done (.value r.value, r.store)) (hgives : r.Gives texts) :
    ruleList h (.table id) r.field.key s = .done (.value texts, r.after) := by
  obtain ⟨field, value, store⟩ := r
  rw [ruleList]
  refine (Run.bind_of_value hread _).trans ?_
  cases hgives with
  | missing => rfl
  | @table list _ hvalues =>
    have hsequence : (store.tableSequence list).1 = texts.map .ofText := hvalues
    refine (Run.bind_of_value rfl _).trans ?_
    rw [hsequence]
    exact ruleItems_ofText field.key 1 texts _

theorem ruleList_of_refused {r : Reading} {fault : Fault}
    (hread : Run.atHost (h.lookup (.table id) (.ofAscii r.field.key)) s =
      .done (.value r.value, r.store)) (hrefused : r.Refused fault) :
    ruleList h (.table id) r.field.key s = .done (.raised (.fault fault), r.after) := by
  obtain ⟨field, value, store⟩ := r
  rw [ruleList]
  refine (Run.bind_of_value hread _).trans ?_
  cases hrefused with
  | type hnil htable =>
    cases value with
    | nil => exact absurd rfl hnil
    | table id => exact absurd rfl (htable id)
    | _ => rfl
  | @item list texts item rest _ hvalues hitem =>
    have hsequence : (store.tableSequence list).1 = texts.map .ofText ++ item :: rest := hvalues
    refine (Run.bind_of_value rfl _).trans ?_
    rw [hsequence]
    exact ruleItems_of_refuses hitem _ _

/-! ## Reading fields -/

/-- What is said of the first of some readings that is not a list. -/
def FirstRefused (readings : List Reading) (fault : Fault) : Prop :=
  ∃ before r after, readings = before ++ r :: after ∧ (∀ q ∈ before, ∃ texts, q.Gives texts) ∧
    r.Refused fault

/-- Of readings all are lists, or there is a first one that is refused. -/
theorem gives_or_refused (readings : List Reading) :
    (∃ lists, List.Forall₂ Reading.Gives readings lists) ∨
      ∃ fault, FirstRefused readings fault := by
  induction readings with
  | nil => exact .inl ⟨[], .nil⟩
  | cons r readings ih =>
    obtain ⟨texts, hgives⟩ | ⟨fault, hrefused⟩ := r.store.listOf_or_refuses r.field.key r.value
    · obtain ⟨lists, hlists⟩ | ⟨fault, before, q, after, rfl, hbefore, hrefused⟩ := ih
      · exact .inl ⟨texts :: lists, .cons hgives hlists⟩
      · refine .inr ⟨fault, r :: before, q, after, rfl, ?_, hrefused⟩
        exact List.forall_mem_cons.2 ⟨⟨texts, hgives⟩, hbefore⟩
    · exact .inr ⟨fault, [], r, readings, rfl, by simp, hrefused⟩

theorem FieldsRead.map_field {fields : List Rule.Field} {readings : List Reading}
    (hread : FieldsRead h id s fields readings) : readings.map Reading.field = fields := by
  induction hread with
  | nil => rfl
  | cons _ _ ih => rw [List.map_cons, ih]

theorem mapM_ruleList_of_gives {fields : List Rule.Field} {readings : List Reading}
    (hread : FieldsRead h id s fields readings) {lists : List (List String)}
    (hgives : List.Forall₂ Reading.Gives readings lists) :
    ∃ t, fields.mapM (fun f => ruleList h (.table id) f.key) s = .done (.value lists, t) := by
  induction hread generalizing lists with
  | @nil s =>
    cases hgives
    exact ⟨s, rfl⟩
  | cons first _ ih =>
    cases hgives with
    | cons hfirst hrest =>
      obtain ⟨t, ht⟩ := ih hrest
      refine ⟨t, ?_⟩
      rw [List.mapM_cons]
      refine (Run.bind_of_value (ruleList_of_gives first hfirst) _).trans ?_
      exact (Run.bind_of_value ht _).trans rfl

theorem mapM_ruleList_of_refused {fields : List Rule.Field} {readings : List Reading}
    {fault : Fault} (hread : FieldsRead h id s fields readings)
    (hrefused : FirstRefused readings fault) :
    ∃ t, fields.mapM (fun f => ruleList h (.table id) f.key) s =
      .done (.raised (.fault fault), t) := by
  obtain ⟨before, r, after, rfl, hbefore, hrefused⟩ := hrefused
  induction before generalizing s fields with
  | nil =>
    cases hread with
    | cons first _ =>
      refine ⟨r.after, ?_⟩
      rw [List.mapM_cons]
      exact Run.bind_of_raised (ruleList_of_refused first hrefused) _
  | cons q before ih =>
    cases hread with
    | cons first rest =>
      obtain ⟨texts, hgives⟩ := hbefore q List.mem_cons_self
      obtain ⟨t, ht⟩ := ih rest fun q' hq' => hbefore q' (List.mem_cons_of_mem _ hq')
      refine ⟨t, ?_⟩
      rw [List.mapM_cons]
      refine (Run.bind_of_value (ruleList_of_gives first hgives) _).trans ?_
      exact Run.bind_of_raised ht _

end Library

/-! ## Fields without functions -/

/-- Tables that have the same entries and the same metatables, whatever was looked at. -/
structure SameTables (s t : Store) : Prop where
  entries : SameEntries s t
  metatables : ∀ id, (t.table id).metatable = (s.table id).metatable
  strings : t.strings = s.strings

namespace SameTables

variable {s t u : Store}

theorem refl (s : Store) : SameTables s s := ⟨fun _ => rfl, fun _ => rfl, rfl⟩

theorem trans (h : SameTables s t) (h' : SameTables t u) : SameTables s u :=
  ⟨fun id => (h'.entries id).trans (h.entries id),
    fun id => (h'.metatables id).trans (h.metatables id), h'.strings.trans h.strings⟩

theorem setTable {id : Nat} {table : Table} (hentries : table.entries = (s.table id).entries)
    (hmetatable : table.metatable = (s.table id).metatable) :
    SameTables s (s.setTable id table) := by
  refine ⟨SameEntries.setTable (fun _ => rfl) hentries, fun i => ?_, rfl⟩
  rw [Store.table_setTable]
  split
  · rename_i h
    rw [h.1, hmetatable]
  · rfl

theorem readTable (s : Store) (id : Nat) (key : Value) : SameTables s (s.readTable id key).2 :=
  setTable rfl rfl

theorem rawGet (h : SameTables s t) (id : Nat) (key : Value) : t.rawGet id key = s.rawGet id key := by
  rw [Store.rawGet, Store.rawGet, Table.get, Table.get, h.entries]

theorem lookupBeyond (h : SameTables s t) (object : Value) :
    t.lookupBeyond object = s.lookupBeyond object := by
  cases object with
  | table id =>
    rw [Store.lookupBeyond, Store.lookupBeyond, h.metatables]
    cases (s.table id).metatable with
    | none => rfl
    | some m => exact h.rawGet m _
  | string bs => rw [Store.lookupBeyond, Store.lookupBeyond, h.strings]
  | _ => rfl

end SameTables

theorem Table.metatable_touchAll (t : Table) (indices : List Nat) :
    (t.touchAll indices).metatable = t.metatable := by
  induction indices generalizing t with
  | nil => rfl
  | cons i indices ih => exact ih (t.touch (.whole i))

theorem SameTables.tableSequence (s : Store) (id : Nat) :
    SameTables s (s.tableSequence id).2 :=
  .setTable (Table.entries_touchAll _ _) (Table.metatable_touchAll _ _)

theorem Library.Reading.sameTables_after (r : Reading) : SameTables r.store r.after := by
  rw [after]
  split
  · exact .tableSequence _ _
  · exact .refl _

/-- What a table has under a key, where so many other tables stand in for missing values. -/
inductive Store.Leads (s : Store) (key : Value) : Nat → Nat → Value → Prop
  | own {id : Nat} {v : Value} (h : s.rawGet id key = v) (hv : v.isNil = false) : s.Leads key 0 id v
  | missing {id : Nat} (h : s.rawGet id key = .nil) (hbeyond : s.lookupBeyond (.table id) = .nil) :
    s.Leads key 0 id .nil
  | beyond {hops id other : Nat} {v : Value} (h : s.rawGet id key = .nil)
    (hbeyond : s.lookupBeyond (.table id) = .table other) (hother : s.Leads key hops other v) :
    s.Leads key (hops + 1) id v

theorem Store.leads_of_metatable {s : Store} {id : Nat} (h : (s.table id).metatable = none)
    (key : Value) : s.Leads key 0 id (s.rawGet id key) := by
  by_cases hnil : s.rawGet id key = .nil
  · rw [hnil]
    exact .missing hnil (by rw [lookupBeyond, h])
  · refine .own rfl ?_
    cases hv : s.rawGet id key with
    | nil => exact absurd hv hnil
    | _ => rfl

namespace Evaluator

open Run

section Missing

variable {s : Store} {id : Nat} {key : Value}

theorem look_beyond (key : Value) {beyond : Value} (hbeyond : s.lookupBeyond (.table id) = beyond) :
    look (·.lookupBeyond (.table id)) (s.readTable id key).2 =
      .done (.value beyond, (s.readTable id key).2) := by
  rw [← hbeyond, ← (SameTables.readTable s id key).lookupBeyond]
  rfl

variable (hmissing : s.rawGet id key = .nil)
include hmissing

theorem readTable_of_missing :
    make (·.readTable id key) s = .done (.value .nil, (s.readTable id key).2) := by
  rw [← hmissing]
  rfl

/-- A value that nothing stands in for is missing. -/
theorem lookup_of_missing (hbeyond : s.lookupBeyond (.table id) = .nil) (fuel hops : Nat)
    (at? : Option Place) (called : Option Subject) :
    lookup (fuel + 1) hops at? called (.table id) key s =
      .done (.value .nil, (s.readTable id key).2) := by
  unfold lookup
  refine (bind_of_value (readTable_of_missing hmissing) _).trans ?_
  exact (bind_of_value (look_beyond key hbeyond) _).trans rfl

/-- A table that stands in for a missing value is looked at in turn. -/
theorem lookup_of_beyond {other : Nat} (hbeyond : s.lookupBeyond (.table id) = .table other)
    (fuel hops : Nat) (at? : Option Place) (called : Option Subject) :
    lookup (fuel + 1) (hops + 1) at? called (.table id) key s =
      lookup fuel hops at? none (.table other) key (s.readTable id key).2 := by
  rw [lookup]
  refine (bind_of_value (readTable_of_missing hmissing) _).trans ?_
  exact (bind_of_value (look_beyond key hbeyond) _).trans rfl

end Missing

/-- Without a function on the way nothing is asked for, and no value changes. -/
theorem lookup_of_leads {s t : Store} {key v : Value} {hops id : Nat}
    (hleads : s.Leads key hops id v) (hsame : SameTables s t) {fuel most : Nat} (hfuel : hops ≤ fuel)
    (hmost : hops ≤ most) (at? : Option Place) (called : Option Subject) :
    ∃ t', lookup (fuel + 1) most at? called (.table id) key t = .done (.value v, t') ∧
      SameTables s t' ∧ t' = { t with tables := t'.tables } := by
  induction hleads generalizing t fuel most called with
  | @own id v h hv =>
    have hraw := (hsame.rawGet id key).trans h
    exact ⟨_, lookup_of_rawGet hraw hv fuel most at? called,
      hsame.trans (.readTable t id key), rfl⟩
  | @missing id h hbeyond =>
    have hraw := (hsame.rawGet id key).trans h
    have hstand := (hsame.lookupBeyond (.table id)).trans hbeyond
    exact ⟨_, lookup_of_missing hraw hstand fuel most at? called,
      hsame.trans (.readTable t id key), rfl⟩
  | @beyond hops id other v h hbeyond _ ih =>
    obtain ⟨fuel, rfl⟩ : ∃ n, fuel = n + 1 := ⟨fuel - 1, by omega⟩
    obtain ⟨most, rfl⟩ : ∃ n, most = n + 1 := ⟨most - 1, by omega⟩
    have hraw := (hsame.rawGet id key).trans h
    have hstand := (hsame.lookupBeyond (.table id)).trans hbeyond
    rw [lookup_of_beyond hraw hstand]
    exact ih (hsame.trans (.readTable t id key)) (Nat.le_of_succ_le_succ hfuel)
      (Nat.le_of_succ_le_succ hmost) none

end Evaluator

namespace Library

/-- Fields of a table in which no function stands in for missing values are read without a
request, and what they hold can be told from the tables as they were. -/
theorem fieldsRead_of_leads {s t : Store} {id steps : Nat} {value : Rule.Field → Value}
    (hsame : SameTables s t) {fields : List Rule.Field} (hfields : fields.Nodup)
    (hleads : ∀ f ∈ fields, ∃ hops, hops ≤ steps ∧ hops ≤ Evaluator.maxHops ∧
      s.Leads (.ofAscii f.key) hops id (value f)) :
    ∃ later : Rule.Field → Store, (∀ f ∈ fields, SameTables s (later f)) ∧
      FieldsRead (Evaluator.host (steps + 1)) id t fields
        (fields.map fun f => ⟨f, value f, later f⟩) := by
  induction fields generalizing t with
  | nil => exact ⟨fun _ => t, by simp, .nil⟩
  | cons f fields ih =>
    obtain ⟨hnew, hrest⟩ := List.nodup_cons.1 hfields
    obtain ⟨⟨hops, hsteps, hmost, hf⟩, hleads⟩ := List.forall_mem_cons.1 hleads
    obtain ⟨u, hlookup, hu, -⟩ := Evaluator.lookup_of_leads hf hsame hsteps hmost none none
    let r : Reading := ⟨f, value f, u⟩
    obtain ⟨later, hlater, hread⟩ := ih (hu.trans r.sameTables_after) hrest hleads
    have hself : (Function.update later f u) f = u := Function.update_self f u later
    have hother : ∀ g ∈ fields, (Function.update later f u) g = later g := fun g hg =>
      Function.update_of_ne (ne_of_mem_of_not_mem hg hnew) u later
    refine ⟨Function.update later f u, List.forall_mem_cons.2 ⟨?_, fun g hg => ?_⟩, ?_⟩
    · rw [hself]
      exact hu
    · rw [hother g hg]
      exact hlater g hg
    · have hmap : (fields.map fun g => (⟨g, value g, Function.update later f u g⟩ : Reading)) =
          fields.map fun g => ⟨g, value g, later g⟩ :=
        List.map_congr_left fun g hg => by rw [hother g hg]
      rw [List.map_cons, hmap, hself]
      exact .cons (r := r) (Run.atHost_of_value hlookup) hread

end Library

end BuildScript.Script
