import BuildScript.Proofs.Script.Lists
import BuildScript.Proofs.Session.Completeness

/-!
# Rules are checked before they are written

A call that makes a rule reads the three lists of its table, one after the other, and checks all
of them. Only then it writes. If there is something to be said of a list, the first such thing is
raised, and the session is as it was: the script may catch it, and the list of rules goes on as if
the call had not been made.

* `Library.tableRule_of_gives`, `Library.tableRule_of_refused`: what is made of a table;
* `Channels.rule_of_refused`, `Channels.perform_of_raised`: a call that is refused, caught or not;
* `Channels.perform_rule_of_gives`, `Channels.emit_filling`: a call that is not;
* `Channels.rule_checks_first`: all of it.
-/

namespace BuildScript

open Files Deps Script BuildScript.Path

/-- The rule with these lists, in the order of its fields. -/
def Rule.ofLists : List (List String) → Rule
  | [inputs, task, outputs] => ⟨inputs, task, outputs⟩
  | _ => .empty

namespace Script

namespace Library

variable {h : Host} {arguments : List Value} {id : Nat}

theorem tableRule_eq (hid : argument arguments 1 = .table id) :
    tableRule h arguments =
      (Rule.Field.all.mapM fun f => ruleList h (.table id) f.key) >>= fun lists =>
        pure (Rule.ofLists lists) := by
  rw [tableRule, hid]
  simp only [Rule.Field.all, List.mapM_cons, List.mapM_nil, bind_assoc, pure_bind]
  rfl

variable {store : Store} {readings : List Reading} (hid : argument arguments 1 = .table id)
  (hread : FieldsRead h id store Rule.Field.all readings)
include hid hread

omit hid in
/-- The fields of a table hold the lists of a rule, or one of them is the first that is refused. -/
theorem gives_or_refused_rule :
    (∃ rule : Rule,
      List.Forall₂ Reading.Gives readings [rule.inputs, rule.task, rule.outputs]) ∨
    ∃ fault, FirstRefused readings fault := by
  refine (gives_or_refused readings).imp_left ?_
  rintro ⟨lists, hlists⟩
  have hlength : lists.length = 3 := by
    rw [← hlists.length_eq, ← List.length_map Reading.field, hread.map_field]
    rfl
  obtain ⟨inputs, task, outputs, rfl⟩ := List.length_eq_three.1 hlength
  exact ⟨⟨inputs, task, outputs⟩, hlists⟩

/-- A table with three lists is read as the rule with these lists. -/
theorem tableRule_of_gives {rule : Rule}
    (hgives : List.Forall₂ Reading.Gives readings [rule.inputs, rule.task, rule.outputs]) :
    ∃ t, tableRule h arguments store = .done (.value rule, t) := by
  obtain ⟨t, ht⟩ := mapM_ruleList_of_gives hread hgives
  refine ⟨t, ?_⟩
  rw [tableRule_eq hid]
  exact Run.bind_of_value ht _

/-- The first field of a table that is no list is all that is told of the table. -/
theorem tableRule_of_refused {fault : Fault} (hrefused : FirstRefused readings fault) :
    ∃ t, tableRule h arguments store = .done (.raised (.fault fault), t) := by
  obtain ⟨t, ht⟩ := mapM_ruleList_of_refused hread hrefused
  refine ⟨t, ?_⟩
  rw [tableRule_eq hid]
  exact Run.bind_of_raised ht _

end Library

end Script

namespace Channels

open Script.Library

section
variable {ω α : Type} {c : Channels ω}

/-- A step that raises something without a request leaves the session as it was, and so does
catching it. -/
theorem perform_of_raised {x : Run α} {store t : Store} {v : Value}
    (hx : x store = .done (.raised v, t)) (s : Session ω) :
    c.perform x store s = ((.raised v, t), s) ∧
      c.perform (Run.attempt x) store s =
        ((.value (.error v), { t with frames := store.frames }), s) := by
  constructor
  · rw [perform, hx]
    rfl
  · rw [perform, Run.attempt, hx]
    rfl

variable {h : Host} {arguments : List Value} {id : Nat} {store : Store} {readings : List Reading}

/-- A call with an argument that is no table is refused. -/
theorem perform_rule_of_not_table (htable : ∀ id, argument arguments 1 ≠ .table id)
    (s : Session ω) :
    c.perform (rule h arguments) store s =
      ((.raised (.fault (wrongArgument 1 "rule" "table" (argument arguments 1).exactTypeName)),
        store), s) := by
  rw [perform, rule]
  cases hv : argument arguments 1 with
  | table id => exact absurd hv (htable id)
  | _ => rfl

section
variable (hid : argument arguments 1 = .table id)
  (hread : FieldsRead h id store Rule.Field.all readings)
include hid hread

/-- A call that is refused raises what is said of the first field that is no list. -/
theorem rule_of_refused {fault : Fault} (hrefused : FirstRefused readings fault) :
    ∃ t, rule h arguments store = .done (.raised (.fault fault), t) := by
  obtain ⟨t, ht⟩ := tableRule_of_refused hid hread hrefused
  refine ⟨t, ?_⟩
  rw [rule_eq]
  exact Run.bind_of_raised ht _

/-- A call that is not refused does what writing its rule does. -/
theorem perform_rule_of_gives {made : Rule}
    (hgives : List.Forall₂ Reading.Gives readings [made.inputs, made.task, made.outputs])
    (s : Session ω) :
    ∃ t, c.perform (rule h arguments) store s =
      ((match (c.emit made s).1 with
        | .ok _ => .value []
        | .error e => .raised (.fault (.external e.message)), t), (c.emit made s).2) := by
  obtain ⟨t, ht⟩ := tableRule_of_gives hid hread hgives
  refine ⟨t, ?_⟩
  have hanswer : c.answers (.emit made) s = c.emit made s := rfl
  rw [perform, rule_eq, Run.bind_of_value ht, writeRule_eq, Action.run_ask, hanswer]
  rcases (c.emit made s).1 with e | u <;> rfl

/-- A call that returns has written its rule. -/
theorem emit_of_value {made : Rule}
    (hgives : List.Forall₂ Reading.Gives readings [made.inputs, made.task, made.outputs])
    {s s' : Session ω} {vs : List Value} {t : Store}
    (hvalue : c.perform (rule h arguments) store s = ((.value vs, t), s')) :
    (c.emit made s).1 = .ok () := by
  obtain ⟨u, hcall⟩ := perform_rule_of_gives (c := c) hid hread hgives s
  rw [hvalue] at hcall
  cases hemit : (c.emit made s).1 with
  | ok _ => rfl
  | error e =>
    rw [hemit] at hcall
    cases hcall

end

end

section
variable {ρ δ : Type} {style : Style} {files : ρ → FileSystem} {rules : Sink ρ}
variable {sender : Sender δ} {depth : Nat} {sound full : ρ → Prop} {text : ρ → Bytes}

/-- What a session is after a rule was put behind the others, and nothing else was done. -/
structure Wrote (text : ρ → Bytes) (made : Rule) (s s' : Session (ρ × δ)) : Prop where
  text : text s'.world.1 = text s.world.1 ++
    ((if 0 < s.stream.count then RuleStream.separator else []) ++ made.encode)
  count : s'.stream.count = s.stream.count + 1
  finished : s'.stream.finished = s.stream.finished
  told : s'.world.2 = s.world.2
  warnings : s'.warnings = s.warnings

/-- Writing a rule does nothing else, and it goes well as long as the list is open and the output
is not full. -/
theorem emit_filling (hrules : rules.FillsUp sound full text) {s : Session (ρ × δ)}
    (hsound : sound s.world.1) (made : Rule) :
    (∃ s', (beside style files rules sender depth).emit made s = (.ok (), s') ∧
      Wrote text made s s') ∨
    ∃ e s', (beside style files rules sender depth).emit made s = (.error e, s') ∧
      (s.stream.finished = true ∨ full s'.world.1) := by
  obtain ⟨⟨w, d⟩, stream, warnings⟩ := s
  simp only [emit, beside_rules, RuleStream.add_onFst]
  cases hopen : stream.finished with
  | true =>
    rw [RuleStream.add_of_finished hopen]
    exact .inr ⟨_, _, rfl, .inl rfl⟩
  | false =>
    rcases RuleStream.add_filling hrules stream hsound hopen made with
      ⟨w', hadd, -, htext, -⟩ | ⟨e, w', hadd, -, hfull⟩
    · rw [hadd]
      exact .inl ⟨_, rfl, htext, rfl, rfl, rfl, rfl⟩
    · rw [hadd]
      exact .inr ⟨e, _, rfl, .inr hfull⟩

variable (style files rules sender depth)

/-- A call that makes a rule checks everything before it writes. An argument that is no table is
refused. Of a table the fields are read, which goes well wherever no function stands in for missing
values. If one of them is neither missing nor a table of texts, the first thing that is to be said
of the first such field is raised, may be caught, and the session is as it was. Otherwise the rule
with the three lists is written, and that is all that happens, as long as the list of rules is open
and its output is not full. -/
theorem rule_checks_first (steps : Nat) (arguments : List Value) (store : Store)
    (s : Session (ρ × δ)) :
    let c := beside style files rules sender depth
    let host := Evaluator.host (steps + 1)
    let call := rule host arguments
    ((∀ id, argument arguments 1 ≠ .table id) → c.perform call store s =
      ((.raised (.fault (wrongArgument 1 "rule" "table" (argument arguments 1).exactTypeName)),
        store), s)) ∧
    ∀ id, argument arguments 1 = .table id →
      (∀ value : Rule.Field → Value,
        (∀ f ∈ Rule.Field.all, ∃ hops, hops ≤ steps ∧ hops ≤ Evaluator.maxHops ∧
          store.Leads (.ofAscii f.key) hops id (value f)) →
        ∃ later : Rule.Field → Store, (∀ f ∈ Rule.Field.all, SameTables store (later f)) ∧
          FieldsRead host id store Rule.Field.all
            (Rule.Field.all.map fun f => ⟨f, value f, later f⟩)) ∧
      ∀ readings, FieldsRead host id store Rule.Field.all readings →
        ((∃ made : Rule,
            List.Forall₂ Reading.Gives readings [made.inputs, made.task, made.outputs]) ∨
          ∃ fault, FirstRefused readings fault) ∧
        (∀ fault, FirstRefused readings fault → ∃ t t',
          c.perform call store s = ((.raised (.fault fault), t), s) ∧
          c.perform (Run.attempt call) store s = ((.value (.error (.fault fault)), t'), s)) ∧
        ((∃ vs t s', c.perform call store s = ((.value vs, t), s')) ↔ ∃ made : Rule,
          List.Forall₂ Reading.Gives readings [made.inputs, made.task, made.outputs] ∧
            (c.emit made s).1 = .ok ()) ∧
        ∀ made : Rule,
          List.Forall₂ Reading.Gives readings [made.inputs, made.task, made.outputs] →
          ∀ (sound full : ρ → Prop) (text : ρ → Bytes), rules.FillsUp sound full text →
            sound s.world.1 →
            (∃ t s', c.perform call store s = ((.value [], t), s') ∧ Wrote text made s s') ∨
            ∃ v t s', c.perform call store s = ((.raised v, t), s') ∧
              (s.stream.finished = true ∨ full s'.world.1) := by
  intro c host call
  refine ⟨fun htable => perform_rule_of_not_table htable s, fun id hid =>
    ⟨fun value hvalue => fieldsRead_of_leads (.refl store) (by decide) hvalue, fun readings hread =>
      ⟨gives_or_refused_rule hread, fun fault hrefused => ?_, ⟨?_, ?_⟩, ?_⟩⟩⟩
  · obtain ⟨t, ht⟩ := rule_of_refused hid hread hrefused
    exact ⟨t, _, perform_of_raised ht s⟩
  · rintro ⟨vs, t, s', hvalue⟩
    obtain ⟨made, hgives⟩ | ⟨fault, hrefused⟩ := gives_or_refused_rule hread
    · exact ⟨made, hgives, emit_of_value hid hread hgives hvalue⟩
    · obtain ⟨t', ht'⟩ := rule_of_refused hid hread hrefused
      have hraised := (perform_of_raised (c := c) ht' s).1
      rw [hvalue] at hraised
      cases hraised
  · rintro ⟨made, hgives, hemit⟩
    obtain ⟨t, hcall⟩ := perform_rule_of_gives (c := c) hid hread hgives s
    rw [hemit] at hcall
    exact ⟨[], t, _, hcall⟩
  · intro made hgives sound full text hrules hsound
    obtain ⟨t, hcall⟩ := perform_rule_of_gives (c := c) hid hread hgives s
    rcases emit_filling hrules hsound made with ⟨s', hemit, hwrote⟩ | ⟨e, s', hemit, hend⟩
    · rw [hemit] at hcall
      exact .inl ⟨t, s', hcall, hwrote⟩
    · rw [hemit] at hcall
      exact .inr ⟨_, t, s', hcall, hend⟩

end

/-- A table with a task and outputs, one of which is no text, and a table with the task alone. -/
def halfwayStore : Store where
  style := .posix
  tables := #[
    ⟨[(.ofAscii "task", .table 2), (.ofAscii "outputs", .table 3)], .empty, none⟩,
    ⟨[(.ofAscii "task", .table 2)], .empty, none⟩,
    Table.ofList [.ofText "cc"],
    Table.ofList [.ofText "ok.o", .string [0x62, 0xFF]]]
  functions := #[]
  cells := #[]
  frames := []
  globals := 0
  packages := 0
  loaded := 0
  preloaded := 0
  strings := 0

theorem halfwayStore_task : halfwayStore.ListOf (.table 2) ["cc"] :=
  .table (Table.sequence_ofList (by simp [Value.ofText, Value.isNil]) (by simp))

theorem halfwayStore_outputs : halfwayStore.Refuses "outputs" (.table 3)
    (.external "rule field 'outputs' item 2 is not valid UTF-8") := by
  have hvalues : (halfwayStore.table 3).sequence =
      ["ok.o"].map Value.ofText ++ [.string [0x62, 0xFF]] :=
    Table.sequence_ofList (by simp [Value.ofText, Value.isNil]) (by simp)
  exact .item hvalues (.encoding (by decide))

theorem halfwayStore_leads {id : Nat} (h : (halfwayStore.table id).metatable = none)
    (f : Rule.Field) : ∃ hops, hops ≤ 0 ∧ hops ≤ Evaluator.maxHops ∧
      halfwayStore.Leads (.ofAscii f.key) hops id (halfwayStore.field id f.key) :=
  ⟨0, Nat.le_refl 0, Nat.zero_le _, Store.leads_of_metatable h _⟩

/-- What is wrong with the last item of the last list is raised, and nothing of the lists before
is written. The same task is written without the outputs. -/
theorem rule_checks_first_halfway :
    let c := beside .posix (fun _ => ⟨.dir [], []⟩) LimitedOutput.sink (.inert : Sender Unit) 0
    let s : Session (LimitedOutput × Unit) := ⟨(.empty none false, ()), ⟨0, false⟩, []⟩
    (∃ t, c.perform (rule (Evaluator.host 1) [.table 0]) halfwayStore s =
      ((.raised (.fault (.external "rule field 'outputs' item 2 is not valid UTF-8")), t), s)) ∧
    ∃ t s', c.perform (rule (Evaluator.host 1) [.table 1]) halfwayStore s =
      ((.value [], t), s') ∧ Wrote LimitedOutput.stored ⟨[], ["cc"], []⟩ s s' := by
  intro c s
  have hchecks := fun arguments => rule_checks_first .posix (fun _ => ⟨.dir [], []⟩)
    LimitedOutput.sink (.inert : Sender Unit) 0 0 arguments halfwayStore s
  have htask : ∀ {t}, SameTables halfwayStore t → t.ListOf (.table 2) ["cc"] :=
    fun h => (Store.ListOf.congr h.entries).2 halfwayStore_task
  constructor
  · obtain ⟨hreads, hcall⟩ := (hchecks [.table 0]).2 0 rfl
    obtain ⟨later, hsame, hread⟩ := hreads _ fun f _ => halfwayStore_leads rfl f
    obtain ⟨-, hrefused, -, -⟩ := hcall _ hread
    have hfirst : FirstRefused _ (.external "rule field 'outputs' item 2 is not valid UTF-8") :=
      ⟨[⟨.inputs, .nil, later .inputs⟩, ⟨.task, .table 2, later .task⟩],
        ⟨.outputs, .table 3, later .outputs⟩, [], rfl,
        List.forall_mem_cons.2 ⟨⟨[], .missing⟩,
          List.forall_mem_singleton.2 ⟨["cc"], htask (hsame .task (by decide))⟩⟩,
        halfwayStore_outputs.congr (hsame .outputs (by decide)).entries⟩
    obtain ⟨t, -, hraised, -⟩ := hrefused _ hfirst
    exact ⟨t, hraised⟩
  · obtain ⟨hreads, hcall⟩ := (hchecks [.table 1]).2 1 rfl
    obtain ⟨later, hsame, hread⟩ := hreads _ fun f _ => halfwayStore_leads rfl f
    obtain ⟨-, -, -, hwrote⟩ := hcall _ hread
    have hgives : List.Forall₂ Reading.Gives
        (Rule.Field.all.map fun f => ⟨f, halfwayStore.field 1 f.key, later f⟩) [[], ["cc"], []] :=
      .cons .missing (.cons (htask (hsame .task (by decide))) (.cons .missing .nil))
    obtain hwritten | ⟨v, t, s', -, hfinished | hfull⟩ := hwrote ⟨[], ["cc"], []⟩ hgives _ _ _
      (fillsUp_of_keepsAll LimitedOutput.keepsAll) ⟨rfl, rfl⟩
    · exact hwritten
    · cases hfinished
    · exact hfull.elim

end Channels

end BuildScript
