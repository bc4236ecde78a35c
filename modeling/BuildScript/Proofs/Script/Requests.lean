import BuildScript.Script.Run

/-!
# Requests that a script makes of its own

A script asks for paths, files and rules. It reports nothing itself, and it goes on after every
reply but one: if the walk of a pattern does not end, neither does the script.

* `Action.Scripted`, `Run.Scripted`: actions and steps that are like that;
* `Action.Announces`: actions that tell of a script before they are like that;
* `Run.Scripted.bind`, `Run.Scripted.attempt`, `Run.scripted_loop`, …: steps made of such steps
  are like that, too;
* `Run.bind_of_value`, `Run.run_of_value`, `Run.run_of_raised`: what comes behind a step that gives
  a value without a request, or gives or raises one after its requests;
* `Run.mapM_of_values`: a list of steps that give values without a request.
-/

namespace BuildScript.Script

variable {α β γ σ : Type}

/-! ## Steps behind one another -/

theorem Action.bind_assoc (x : Action α) (f : α → Action β) (g : β → Action γ) :
    (x.bind f).bind g = x.bind fun a => (f a).bind g := by
  induction x with
  | done a => rfl
  | ask q next ih =>
    simp only [Action.bind]
    congr
    funext r
    exact ih r

namespace Run

theorem bind_apply (x : Run α) (f : α → Run β) (store : Store) :
    (x >>= f) store = (x store).bind fun r =>
      match r.1 with
      | .value a => f a r.2
      | .raised v => .done (.raised v, r.2)
      | .unfinished => .done (.unfinished, r.2) := by
  change (x store).bind _ = _
  congr
  funext r
  obtain ⟨a | v | _, store'⟩ := r
  · rfl
  · rfl
  · rfl

theorem bind_assoc (x : Run α) (f : α → Run β) (g : β → Run γ) :
    (x >>= f) >>= g = x >>= fun a => f a >>= g := by
  funext store
  rw [bind_apply, bind_apply, bind_apply, Action.bind_assoc]
  congr
  funext r
  obtain ⟨a | v | _, store'⟩ := r
  · exact (bind_apply (f a) g store').symm
  · rfl
  · rfl

section
variable {answers : Action.Answers σ} {x : Run α} {s t : Store} {a b : σ}

theorem run_of_value {v : α} (hx : (x s).run answers a = ((.value v, t), b)) (f : α → Run β) :
    ((x >>= f) s).run answers a = (f v t).run answers b := by
  rw [bind_apply, Action.run_bind, hx]

theorem run_of_raised {v : Value} (hx : (x s).run answers a = ((.raised v, t), b))
    (f : α → Run β) : ((x >>= f) s).run answers a = ((.raised v, t), b) := by
  rw [bind_apply, Action.run_bind, hx]
  rfl

end

end Run

/-! ## What scripts ask for -/

/-- Requests and replies as a script has them. -/
inductive Action.Scripted : Action (Outcome α × Store) → Prop where
  | done (r : Outcome α × Store) : Scripted (.done r)
  | expand {pattern : Bytes} {next : Option (List Bytes) → Action (Outcome α × Store)} {s : Store}
    (lost : next none = .done (.unfinished, s))
    (later : ∀ paths, Scripted (next (some paths))) :
    Scripted (.ask (.expand pattern) next)
  | probe {path : Bytes} {next : Bool → Action (Outcome α × Store)}
    (later : ∀ found, Scripted (next found)) : Scripted (.ask (.probe path) next)
  | load {path : Bytes} {next : Except OsError Bytes → Action (Outcome α × Store)}
    (later : ∀ source, Scripted (next source)) : Scripted (.ask (.load path) next)
  | emit {rule : Rule} {next : Except RuleError Unit → Action (Outcome α × Store)}
    (later : ∀ result, Scripted (next result)) : Scripted (.ask (.emit rule) next)

/-- A script that is told of first, if it gets that far, and does not tell of any file on its own. -/
inductive Action.Announces (path : Bytes) : Action (Outcome α × Store) → Prop where
  | told {next : Unit → Action (Outcome α × Store)} (later : (next ()).Scripted) :
    Announces path (.ask (.report path) next)
  | stuck (s : Store) : Announces path (.done (.unfinished, s))

/-- What comes after an action that does not come to an end does not, either. -/
theorem Action.Scripted.bind {x : Action (Outcome α × Store)} (hx : x.Scripted)
    {f : Outcome α × Store → Action (Outcome β × Store)} (hf : ∀ r, (f r).Scripted)
    (stays : ∀ s, f (.unfinished, s) = .done (.unfinished, s)) : (x.bind f).Scripted := by
  induction hx with
  | done r => exact hf r
  | @expand pattern next s lost later ih =>
    have still : (next none).bind f = .done (.unfinished, s) := by
      rw [lost]
      exact stays s
    exact .expand still ih
  | probe later ih => exact .probe ih
  | load later ih => exact .load ih
  | emit later ih => exact .emit ih

namespace Run

/-- Steps whose requests are those of a script, from any store on. -/
def Scripted (x : Run α) : Prop := ∀ s, (x s).Scripted

theorem scripted_pure (a : α) : (pure a : Run α).Scripted := fun _ => .done _

theorem Scripted.bind {x : Run α} {f : α → Run β} (hx : x.Scripted)
    (hf : ∀ a, (f a).Scripted) : (x >>= f).Scripted := by
  intro s
  refine (hx s).bind ?_ fun _ => rfl
  rintro ⟨a | v | _, s'⟩
  · exact hf a s'
  · exact .done _
  · exact .done _

theorem Scripted.map {x : Run α} (hx : x.Scripted) (f : α → β) : (f <$> x).Scripted :=
  hx.bind fun _ => scripted_pure _

/-! ## Steps that give a value -/

section
variable {x : Run α} {s t : Store} {a : α}

theorem bind_of_value (hx : x s = .done (.value a, t)) (f : α → Run β) :
    (x >>= f) s = f a t := by
  change (x s).bind _ = _
  rw [hx]
  rfl

theorem atHost_of_value (hx : x s = .done (.value a, t)) :
    atHost x s = .done (.value a, t) := by
  have caught : attempt x s = .done (.value (.ok a), t) := by
    unfold attempt
    rw [hx]
    rfl
  exact bind_of_value caught _

end

theorem mapM_of_values {f : α → Run β} {g : α → β} {kept : Store → Prop}
    (hf : ∀ a s, kept s → ∃ t, f a s = .done (.value (g a), t) ∧ kept t) (as : List α) {s : Store}
    (hs : kept s) : ∃ t, as.mapM f s = .done (.value (as.map g), t) ∧ kept t := by
  have hloop : ∀ (done : List β) s, kept s →
      ∃ t, List.mapM.loop f as done s = .done (.value (done.reverse ++ as.map g), t) ∧ kept t := by
    induction as with
    | nil =>
      intro done s hs
      refine ⟨s, ?_, hs⟩
      rw [List.map_nil, List.append_nil]
      rfl
    | cons a as ih =>
      intro done s hs
      obtain ⟨s₁, hstep, hs₁⟩ := hf a s hs
      obtain ⟨t, hrest, ht⟩ := ih (g a :: done) s₁ hs₁
      refine ⟨t, ?_, ht⟩
      rw [List.mapM.loop]
      refine (bind_of_value hstep _).trans ?_
      rw [hrest, List.reverse_cons, List.append_assoc]
      rfl
  exact hloop [] s hs

/-! ## Single steps -/

theorem scripted_look (f : Store → α) : (look f).Scripted := fun _ => .done _

theorem scripted_change (f : Store → Store) : (change f).Scripted := fun _ => .done _

theorem scripted_make (f : Store → α × Store) : (make f).Scripted := fun _ => .done _

theorem scripted_newTable (t : Table) : (newTable t).Scripted := scripted_make _

theorem scripted_newFunction (f : Function) : (newFunction f).Scripted := scripted_make _

theorem scripted_newCell (v : Value) : (newCell v).Scripted := scripted_make _

theorem scripted_newProgram (body : Body) (chunk : Bytes) : (newProgram body chunk).Scripted :=
  (scripted_look _).bind fun _ => (scripted_newCell _).bind fun _ => scripted_newFunction _

theorem scripted_nestedCalls : nestedCalls.Scripted := scripted_look _

theorem scripted_raise (v : Value) : (raise v : Run α).Scripted := fun _ => .done _

theorem scripted_fail (f : Fault) : (fail f : Run α).Scripted := scripted_raise _

theorem scripted_unfinished : (unfinished : Run α).Scripted := fun _ => .done _

theorem scripted_probe (path : Bytes) : (ask (.probe path)).Scripted :=
  fun _ => .probe fun _ => .done _

theorem scripted_load (path : Bytes) : (ask (.load path)).Scripted :=
  fun _ => .load fun _ => .done _

theorem scripted_emit (rule : Rule) : (ask (.emit rule)).Scripted :=
  fun _ => .emit fun _ => .done _

theorem scripted_position (level : Nat) : (position level).Scripted := by
  refine (scripted_look _).bind fun frame => ?_
  split <;> exact scripted_pure _

theorem scripted_complainAt (level : Nat) (message : Bytes) :
    (complainAt level message : Run α).Scripted :=
  (scripted_position level).bind fun _ => scripted_raise _

theorem scripted_complain (message : Bytes) : (complain message : Run α).Scripted :=
  scripted_complainAt 1 message

theorem scripted_onLine (place : Place) : (onLine place).Scripted := scripted_change _

theorem scripted_failAt (place : Place) (message : Bytes) :
    (failAt place message : Run α).Scripted := scripted_raise _

theorem scripted_refuseArgument (position : Nat) (reason : String) :
    (refuseArgument position reason : Run α).Scripted := by
  refine (scripted_look _).bind fun called => ?_
  dsimp only
  split <;> exact scripted_complain _

/-! ## Steps made of others -/

theorem Scripted.attempt {x : Run α} (hx : x.Scripted) : (attempt x).Scripted := by
  intro s
  refine (hx s).bind ?_ fun _ => rfl
  rintro ⟨a | v | _, s'⟩ <;> exact .done _

theorem Scripted.atHost {x : Run α} (hx : x.Scripted) : (atHost x).Scripted := by
  refine hx.attempt.bind fun r => ?_
  cases r with
  | ok a => exact scripted_pure a
  | error v => exact scripted_fail _

theorem Scripted.ite {c : Prop} [Decidable c] {x y : Run α} (hx : x.Scripted)
    (hy : y.Scripted) : (if c then x else y).Scripted := by
  split
  · exact hx
  · exact hy

theorem scripted_put (id : Nat) (key value : Value) : (put id key value).Scripted :=
  (scripted_look _).bind fun _ => .ite scripted_unfinished (scripted_change _)

/-- One of two steps, and what comes behind either. -/
theorem Scripted.either {c : Prop} [Decidable c] {x y : Run α} {next : α → Run β}
    (hx : x.Scripted) (hy : y.Scripted) (hnext : ∀ a, (next a).Scripted) :
    (if c then x >>= next else y >>= next).Scripted :=
  .ite (hx.bind hnext) (hy.bind hnext)

/-- A step that is not always made, and what comes behind it. -/
theorem Scripted.guarded {c : Prop} [Decidable c] {x : Run PUnit} {next : PUnit → Run β}
    (hx : x.Scripted) (hnext : ∀ u, (next u).Scripted) :
    (if c then x >>= next else next ⟨⟩).Scripted :=
  .ite (hx.bind hnext) (hnext _)

theorem Scripted.within {x : Run α} (hx : x.Scripted) (callee : Callee) (fromHost : Bool) :
    (within callee fromHost x).Scripted := by
  refine (scripted_look _).bind fun outer => ?_
  refine Scripted.guarded (scripted_complainAt _ _) fun _ => ?_
  refine Scripted.guarded (scripted_complainAt _ _) fun _ => ?_
  refine (scripted_change _).bind fun _ => hx.bind fun a => ?_
  exact (scripted_change _).bind fun _ => scripted_pure a

theorem scripted_loop {step : σ → Run (Round σ β)} (hstep : ∀ a, (step a).Scripted) (n : Nat)
    (a : σ) : (loop step n a).Scripted := by
  induction n generalizing a with
  | zero => exact scripted_unfinished
  | succ n ih =>
    rw [loop_succ]
    refine (hstep a).bind fun r => ?_
    cases r with
    | again a => exact ih a
    | stop b => exact scripted_pure b

theorem scripted_mapM {f : α → Run β} (hf : ∀ a, (f a).Scripted) (as : List α) :
    (as.mapM f).Scripted := by
  have loop : ∀ done, (List.mapM.loop f as done).Scripted := by
    induction as with
    | nil => exact fun done => scripted_pure _
    | cons a as ih => exact fun done => (hf a).bind fun b => ih (b :: done)
  exact loop []

theorem scripted_foldlM {f : σ → α → Run σ} (hf : ∀ s a, (f s a).Scripted) (as : List α)
    (s : σ) : (as.foldlM f s).Scripted := by
  induction as generalizing s with
  | nil => exact scripted_pure s
  | cons a as ih => exact (hf s a).bind fun s => ih s

theorem scripted_forM {f : α → Run PUnit} (hf : ∀ a, (f a).Scripted) (as : List α) :
    (as.forM f).Scripted := by
  induction as with
  | nil => exact scripted_pure _
  | cons a as ih => exact (hf a).bind fun _ => ih

end Run

end BuildScript.Script
