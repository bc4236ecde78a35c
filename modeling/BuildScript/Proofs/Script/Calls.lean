import BuildScript.Proofs.Script.Lists

/-!
# Calls of functions that were given to scripts

A function that was given to a script works on the same store with one more call under way, and
takes it away at its end. There may be only so many calls inside of one another.

* `Store.Looked`: a store of which tables were looked at, and which is the same for whoever looks at
  it next;
* `Store.Has`: what is found under a key without a function on the way;
* `Store.HasRoom`: whether there may be so many more calls;
* `Evaluator.run_callFromHost`, `Evaluator.callFromHost_of_full`: a call, with room and without;
* `Evaluator.lookup_of_own`, `Evaluator.lookup_of_has`: a key of a table.
-/

namespace BuildScript.Script

open BuildScript.Path Run

/-! ## Stores that were looked at -/

theorem SameTables.leads {s t : Store} (h : SameTables s t) {key v : Value} {hops id : Nat}
    (hleads : s.Leads key hops id v) : t.Leads key hops id v := by
  induction hleads with
  | own hraw hv => exact .own ((h.rawGet _ key).trans hraw) hv
  | missing hraw hbeyond =>
    exact .missing ((h.rawGet _ key).trans hraw) ((h.lookupBeyond _).trans hbeyond)
  | beyond hraw hbeyond _ ih =>
    exact .beyond ((h.rawGet _ key).trans hraw) ((h.lookupBeyond _).trans hbeyond) ih

namespace Store

/-- What a table has under a key, where no function stands in for missing values and no more tables
than there are steps. -/
def Has (s : Store) (steps id : Nat) (key v : Value) : Prop :=
  ∃ hops, hops ≤ steps ∧ hops ≤ Evaluator.maxHops ∧ s.Leads key hops id v

theorem Has.mono {s : Store} {steps more id : Nat} {key v : Value} (h : s.Has steps id key v)
    (hmore : steps ≤ more) : s.Has more id key v := by
  obtain ⟨hops, hsteps, hmost, hleads⟩ := h
  exact ⟨hops, hsteps.trans hmore, hmost, hleads⟩

/-- What a table does not have that no other one stands in for. -/
theorem has_nil {s : Store} {id : Nat} {key : Value} (hmetatable : (s.table id).metatable = none)
    (hmissing : (s.rawGet id key).isNil = true) (steps : Nat) : s.Has steps id key .nil := by
  have hnil : s.rawGet id key = .nil := by
    cases hv : s.rawGet id key with
    | nil => rfl
    | _ =>
      rw [hv] at hmissing
      cases hmissing
  have hleads := leads_of_metatable hmetatable key
  rw [hnil] at hleads
  exact ⟨0, Nat.zero_le _, Nat.zero_le _, hleads⟩

/-- A store of which some tables were looked at, and nothing else was done to it. -/
structure Looked (s t : Store) : Prop where
  tables : SameTables s t
  rest : t = { s with tables := t.tables }

namespace Looked

variable {s t u : Store}

theorem refl (s : Store) : Looked s s := ⟨.refl s, rfl⟩

theorem trans (h : Looked s t) (h' : Looked t u) : Looked s u :=
  ⟨h.tables.trans h'.tables, by rw [h'.rest, h.rest]⟩

theorem readTable (s : Store) (id : Nat) (key : Value) : Looked s (s.readTable id key).2 :=
  ⟨.readTable s id key, rfl⟩

/-- Other calls under way make no difference. -/
theorem withFrames (h : Looked s t) (frames : List Frame) :
    Looked { s with frames } { t with frames } :=
  ⟨⟨h.tables.entries, h.tables.metatables, h.tables.strings⟩, by rw [h.rest]⟩

theorem has (h : Looked s t) {steps id : Nat} {key v : Value} (hhas : s.Has steps id key v) :
    t.Has steps id key v := by
  obtain ⟨hops, hsteps, hmost, hleads⟩ := hhas
  exact ⟨hops, hsteps, hmost, h.tables.leads hleads⟩

theorem has_preloaded (h : Looked s t) {steps : Nat} {key v : Value}
    (hhas : s.Has steps s.preloaded key v) : t.Has steps t.preloaded key v := by
  have hid : t.preloaded = s.preloaded := by rw [h.rest]
  rw [hid]
  exact h.has hhas

theorem field_eq (h : Looked s t) (id : Nat) (name : String) :
    t.field id name = s.field id name :=
  h.tables.rawGet id (.ofAscii name)

theorem at_eq (h : Looked s t) (id i : Nat) : (t.table id).at_ i = (s.table id).at_ i := by
  rw [Table.at_, Table.get, Table.at_, Table.get, h.tables.entries]

end Looked

/-- How many calls are under way that were not made by scripts. -/
def nested (s : Store) : Nat :=
  match s.frames with
  | f :: _ => f.nested
  | [] => 0

/-- How many calls are under way. -/
def callDepth (s : Store) : Nat :=
  match s.frames with
  | f :: _ => f.depth
  | [] => 0

/-- There may be so many more calls inside of one another. -/
def HasRoom (s : Store) (calls : Nat) : Prop :=
  s.callDepth + calls ≤ maxDepth ∧ s.nested + calls < maxNested

instance (s : Store) (calls : Nat) : Decidable (s.HasRoom calls) :=
  inferInstanceAs (Decidable (_ ∧ _))

theorem Looked.nested {s t : Store} (h : Looked s t) : t.nested = s.nested := by
  rw [h.rest]
  rfl

theorem Looked.hasRoom {s t : Store} (h : Looked s t) (calls : Nat) :
    t.HasRoom calls ↔ s.HasRoom calls := by
  rw [h.rest]
  rfl

/-- The store with a call of a function that was given to the script under way. -/
def calling (s : Store) (id : Nat) : Store :=
  { s with frames := newFrame s.frames (.host id none) true :: s.frames }

theorem has_calling {s : Store} {steps id : Nat} {key v : Value} (h : s.Has steps id key v)
    (function : Nat) : (s.calling function).Has steps id key v := by
  obtain ⟨hops, hsteps, hmost, hleads⟩ := h
  have hsame : SameTables s (s.calling function) := ⟨fun _ => rfl, fun _ => rfl, rfl⟩
  exact ⟨hops, hsteps, hmost, hsame.leads hleads⟩

theorem nested_calling (s : Store) (id : Nat) : (s.calling id).nested = s.nested + 1 := by
  unfold calling nested newFrame
  cases s.frames <;> rfl

theorem callDepth_calling (s : Store) (id : Nat) :
    (s.calling id).callDepth = s.callDepth + 1 := by
  unfold calling callDepth newFrame
  cases s.frames <;> rfl

theorem HasRoom.mono {s : Store} {calls fewer : Nat} (h : s.HasRoom calls)
    (hfewer : fewer ≤ calls) : s.HasRoom fewer := by
  obtain ⟨hdepth, hnested⟩ := h
  constructor <;> omega

theorem hasRoom_calling (s : Store) (id calls : Nat) :
    (s.calling id).HasRoom calls ↔ s.HasRoom (calls + 1) := by
  rw [HasRoom, HasRoom, nested_calling, callDepth_calling]
  omega

/-- The store and what is left of it when a call ends. -/
def leave {α : Type} (s : Store) : Outcome α × Store → Outcome α × Store
  | (.value a, t) => (.value a, { t with frames := s.frames })
  | r => r

/-- A function that runs a whole source among the globals, and the store with it. -/
def addProgram (s : Store) (body : Body) (chunk : Bytes) : Value × Store :=
  let globals := s.addCell (.table s.globals)
  globals.2.addFunction (.script body [⟨environmentName, globals.1, 0⟩] chunk 1)

end Store

/-! ## Calls -/

section
variable {σ : Type} {answers : Action.Answers σ} {w w' : σ} {s t : Store}

/-- A call inside of others that there is room for. -/
theorem Run.within_eq {α : Type} (id : Nat) (hroom : s.HasRoom 1) (x : Run α) :
    within (.host id none) true x s = (x (s.calling id)).bind fun r => .done (s.leave r) := by
  have hdepth : ¬ maxDepth < (newFrame s.frames (.host id none) true).depth :=
    Nat.not_lt.2 ((Store.callDepth_calling s id).trans_le hroom.1)
  have hnested : ¬ maxNested ≤ (newFrame s.frames (.host id none) true).nested :=
    Nat.not_le.2 ((Store.nested_calling s id).trans_lt hroom.2)
  unfold within
  refine (bind_of_value rfl _).trans ?_
  dsimp only
  rw [if_neg hdepth, if_neg hnested]
  refine (bind_of_value rfl _).trans ?_
  rw [bind_apply]
  congr
  funext r
  obtain ⟨a | v | _, t⟩ := r <;> rfl

theorem Run.complainAt_raises {α : Type} (level : Nat) (message : Bytes) (s : Store) :
    ∃ v, (complainAt level message : Run α) s = .done (.raised v, s) := by
  have hposition : ∃ place, position level s = .done (.value place, s) := by
    have hlook : look (fun s => s.frames[level]?) s = .done (.value s.frames[level]?, s) := rfl
    unfold position
    rw [bind_of_value hlook]
    rcases s.frames[level]? with _ | ⟨_ | place, _, _⟩
    all_goals exact ⟨_, rfl⟩
  obtain ⟨place, hposition⟩ := hposition
  exact ⟨_, (bind_of_value hposition _).trans rfl⟩

/-- A call that there is no room for. -/
theorem Run.within_of_full {α : Type} (id : Nat) (hfull : ¬ s.HasRoom 1) (x : Run α) :
    ∃ v, within (.host id none) true x s = .done (.raised v, s) := by
  have hdepth : (newFrame s.frames (.host id none) true).depth = s.callDepth + 1 :=
    Store.callDepth_calling s id
  have hnested : (newFrame s.frames (.host id none) true).nested = s.nested + 1 :=
    Store.nested_calling s id
  have hlook : look Store.frames s = .done (.value s.frames, s) := rfl
  obtain ⟨v, hdeep⟩ := @complainAt_raises PUnit 0 (Bytes.ofAscii "stack overflow") s
  obtain ⟨v', hmany⟩ := @complainAt_raises PUnit 0 (Bytes.ofAscii "C stack overflow") s
  unfold within
  rw [bind_of_value hlook]
  dsimp only
  by_cases h : maxDepth < s.callDepth + 1
  · rw [hdepth, if_pos h]
    exact ⟨v, bind_of_raised hdeep _⟩
  · have hover : maxNested ≤ s.nested + 1 :=
      Nat.not_lt.1 fun hless => hfull ⟨Nat.not_lt.1 h, hless⟩
    rw [hdepth, if_neg h, hnested, if_pos hover]
    exact ⟨v', bind_of_raised hmany _⟩

section
variable {id : Nat} {b : Builtin} (hf : s.functions[id]? = some (.host b))
include hf

theorem Evaluator.callFromHost_eq (fuel : Nat) (arguments : List Value) :
    callFromHost (fuel + 2) none (.function id) arguments s =
      within (.host id none) true (Library.call (host fuel) b arguments) s := by
  have hlook : look (fun s => s.functions[id]?) s = .done (.value (some (.host b)), s) := by
    rw [← hf]
    rfl
  rw [callFromHost]
  refine (bind_of_value hlook _).trans ?_
  dsimp only
  rw [apply]
  rfl

/-- A call of a function that was given to the script. -/
theorem Evaluator.run_callFromHost (hroom : s.HasRoom 1) (fuel : Nat) (arguments : List Value) :
    (callFromHost (fuel + 2) none (.function id) arguments s).run answers w =
      let r := (Library.call (host fuel) b arguments (s.calling id)).run answers w
      (s.leave r.1, r.2) := by
  rw [callFromHost_eq hf, within_eq id hroom, Action.run_bind]
  rfl

theorem Evaluator.callFromHost_of_full (hfull : ¬ s.HasRoom 1) (fuel : Nat)
    (arguments : List Value) :
    ∃ v, callFromHost (fuel + 2) none (.function id) arguments s = .done (.raised v, s) := by
  rw [callFromHost_eq hf]
  exact within_of_full id hfull _

end

/-- What a table has itself. -/
theorem Evaluator.lookup_of_own {key v : Value} {id : Nat} (h : s.rawGet id key = v)
    (hv : v.isNil = false) (hst : s.Looked t) (fuel hops : Nat) (at? : Option Place)
    (called : Option Subject) :
    lookup (fuel + 1) hops at? called (.table id) key t =
      .done (.value v, (t.readTable id key).2) :=
  lookup_of_rawGet ((hst.tables.rawGet id key).trans h) hv fuel hops at? called

/-- Tables that stand in for others are only looked at. -/
theorem Evaluator.lookup_of_has {key v : Value} {fuel id : Nat} (h : s.Has fuel id key v)
    (at? : Option Place) (called : Option Subject) :
    ∃ t, lookup (fuel + 1) maxHops at? called (.table id) key s = .done (.value v, t) ∧
      s.Looked t := by
  obtain ⟨hops, hfuel, hmost, hleads⟩ := h
  obtain ⟨t, hlookup, hsame, hrest⟩ := lookup_of_leads hleads (.refl s) hfuel hmost at? called
  exact ⟨t, hlookup, hsame, hrest⟩

theorem Run.run_atHost_of_value {α : Type} {x : Run α} {a : α}
    (hx : (x s).run answers w = ((.value a, t), w')) :
    (atHost x s).run answers w = ((.value a, t), w') := by
  have hcaught : (attempt x s).run answers w = ((.value (.ok a), t), w') := by
    rw [attempt, Action.run_bind, hx]
    rfl
  exact run_of_value hcaught _

theorem Run.atHost_of_raised {α : Type} {x : Run α} {v : Value} (hx : x s = .done (.raised v, t)) :
    atHost x s = .done (.raised (.fault v.raised), { t with frames := s.frames }) := by
  have hcaught : attempt x s = .done (.value (.error v), { t with frames := s.frames }) := by
    unfold attempt
    rw [hx]
    rfl
  exact bind_of_value hcaught _

end

end BuildScript.Script
