import BuildScript.Proofs.Script.Requests
import BuildScript.Script.Library

/-!
# What functions given to scripts ask for

Each of the functions given to scripts makes requests of its own kind or none, and calls values of
the script through a host.

* `Host.Scripted`: hosts whose calls and look-ups make no other requests than scripts do;
* `Library.scripted_glob`, `Library.scripted_findFile`, …: the functions that ask for something;
* `Library.scripted_call`: all of them.
-/

namespace BuildScript.Script

open BuildScript.Path Glob

structure Host.Scripted (h : Host) : Prop where
  call : ∀ f arguments, (h.call f arguments).Scripted
  lookup : ∀ object key, (h.lookup object key).Scripted

namespace Library

open Run

/-! ## Arguments -/

theorem scripted_stringArgument (arguments : List Value) (position : Nat) :
    (stringArgument arguments position).Scripted := by
  unfold stringArgument
  dsimp only
  split
  · exact scripted_pure _
  · exact scripted_fail _

theorem scripted_stringAmong (function : String) (position : Nat) (v : Value) :
    (stringAmong function position v).Scripted := by
  unfold stringAmong
  split
  · exact scripted_pure _
  · exact scripted_fail _

theorem scripted_wantString (v : Value) : (wantString v).Scripted := by
  unfold wantString
  split
  · exact scripted_pure _
  · exact scripted_fail _

theorem scripted_wantOptionalString (v : Value) : (wantString? v).Scripted := by
  unfold wantString?
  split
  · exact scripted_pure _
  · exact (scripted_wantString v).map _

theorem scripted_wantTable (v : Value) : (wantTable v).Scripted := by
  unfold wantTable
  split
  · exact scripted_pure _
  · exact scripted_fail _

theorem scripted_wantFunction (v : Value) : (wantFunction v).Scripted := by
  unfold wantFunction
  split
  · exact scripted_pure _
  · exact scripted_fail _

theorem scripted_refuseType {α : Type} (arguments : List Value) (position : Nat)
    (expected : String) : (refuseType arguments position expected : Run α).Scripted :=
  scripted_refuseArgument _ _

theorem scripted_checkString (arguments : List Value) (position : Nat) :
    (checkString arguments position).Scripted := by
  unfold checkString
  split
  · exact scripted_pure _
  · exact scripted_refuseType _ _ _

theorem scripted_checkName (arguments : List Value) (position : Nat) :
    (checkName arguments position).Scripted :=
  (scripted_checkString arguments position).bind fun _ => scripted_pure _

theorem scripted_checkNameOr (arguments : List Value) (position : Nat) (other : Bytes) :
    (checkNameOr arguments position other).Scripted := by
  unfold checkNameOr
  split
  · exact scripted_pure _
  · exact scripted_checkName _ _

theorem scripted_checkWhole (arguments : List Value) (position : Nat) :
    (checkWhole arguments position).Scripted := by
  unfold checkWhole
  split
  · split
    · exact scripted_pure _
    · exact scripted_refuseArgument _ _
  · exact scripted_refuseType _ _ _

theorem scripted_checkTable (arguments : List Value) (position : Nat) :
    (checkTable arguments position).Scripted := by
  unfold checkTable
  split
  · exact scripted_pure _
  · exact scripted_refuseType _ _ _

theorem scripted_checkAny (arguments : List Value) : (checkAny arguments).Scripted := by
  unfold checkAny
  split
  · exact scripted_pure _
  · exact scripted_refuseArgument _ _

/-! ## Globs -/

theorem scripted_flatten (arguments : List Value) : (flatten arguments).Scripted := by
  refine (scripted_mapM ?_ _).map _
  intro p
  split
  · exact (scripted_make _).bind fun _ => scripted_pure _
  · exact scripted_pure _

-- the one request that may have no answer, after which the script does not come to an end
theorem scripted_applyPattern (set : MatchSet) (pattern : Bytes) :
    (applyPattern set pattern).Scripted :=
  fun _ => .expand rfl fun _ => .done _

section
variable {h : Host} (hh : h.Scripted) (arguments : List Value)
include hh

theorem scripted_scriptDir : (scriptDir h).Scripted := by
  refine (scripted_look _).bind fun globals => ?_
  refine (hh.lookup _ _).atHost.bind fun v => ?_
  exact (scripted_wantOptionalString v).bind fun _ => scripted_pure _

theorem scripted_glob : (glob h arguments).Scripted := by
  refine (scripted_scriptDir hh).bind fun dir => (scripted_look _).bind fun style => ?_
  refine (scripted_flatten arguments).bind fun patterns => ?_
  refine (scripted_foldlM ?_ patterns _).bind fun set => ?_
  · intro set p
    exact (scripted_stringAmong _ _ _).bind fun pattern => scripted_applyPattern _ _
  · exact (scripted_newTable _).bind fun _ => scripted_pure _

/-! ## Rules -/

omit hh in
theorem scripted_ruleItem (field : String) (index : Nat) (v : Value) :
    (ruleItem field index v).Scripted := by
  unfold ruleItem
  dsimp only
  split
  · split
    · exact scripted_pure _
    · exact scripted_fail _
  · exact scripted_fail _

theorem scripted_ruleList (spec : Value) (field : String) :
    (ruleList h spec field).Scripted := by
  refine (hh.lookup _ _).atHost.bind fun v => ?_
  split
  · exact scripted_pure _
  · refine (scripted_make _).bind fun items => ?_
    exact scripted_mapM (fun _ => scripted_ruleItem field _ _) _
  · exact scripted_fail _

theorem scripted_rule : (rule h arguments).Scripted := by
  unfold rule
  split
  · refine (scripted_ruleList hh _ _).bind fun inputs => ?_
    refine (scripted_ruleList hh _ _).bind fun task => ?_
    refine (scripted_ruleList hh _ _).bind fun outputs => ?_
    refine (scripted_emit _).bind fun result => ?_
    cases result with
    | ok _ => exact scripted_pure _
    | error e => exact scripted_fail _
  · exact scripted_fail _

end

/-! ## Paths and matches -/

theorem scripted_matchPattern (arguments : List Value) : (matchPattern arguments).Scripted := by
  refine (scripted_stringArgument _ _).bind fun text => ?_
  refine (scripted_stringArgument _ _).bind fun pattern => ?_
  exact (scripted_look _).bind fun _ => scripted_pure _

theorem scripted_onPath (f : Style → Bytes → List Value) (arguments : List Value) :
    (onPath f arguments).Scripted :=
  (scripted_stringArgument _ _).bind fun _ => (scripted_look _).bind fun _ => scripted_pure _

theorem scripted_join (arguments : List Value) : (join arguments).Scripted := by
  refine (scripted_look _).bind fun style => ?_
  refine (scripted_foldlM ?_ _ _).bind fun _ => scripted_pure _
  intro path p
  split
  · exact scripted_pure _
  · exact (scripted_stringAmong _ _ _).bind fun _ => scripted_pure _

/-! ## Modules -/

theorem scripted_firstOpen (files : List Bytes) : (firstOpen files).Scripted := by
  induction files with
  | nil => exact scripted_pure _
  | cons file rest ih =>
    refine (scripted_probe file).bind fun opens => ?_
    split
    · exact scripted_pure _
    · exact ih

theorem scripted_searchPath (arguments : List Value) : (searchPath arguments).Scripted := by
  refine (scripted_checkName _ _).bind fun name => (scripted_checkName _ _).bind fun path => ?_
  refine (scripted_checkNameOr _ _ _).bind fun separator => ?_
  refine (scripted_checkNameOr _ _ _).bind fun directorySeparator => ?_
  refine (scripted_firstOpen _).bind fun found => ?_
  split <;> exact scripted_pure _

section
variable {h : Host} (hh : h.Scripted) (arguments : List Value)
include hh

theorem scripted_findPreloaded : (findPreloaded h arguments).Scripted := by
  refine (scripted_checkName _ _).bind fun name => (scripted_look _).bind fun preloaded => ?_
  refine (hh.lookup _ _).bind fun loader => ?_
  split <;> exact scripted_pure _

theorem scripted_findFile : (findFile h arguments).Scripted := by
  refine (scripted_stringArgument _ _).bind fun name => (scripted_look _).bind fun globals => ?_
  refine (hh.lookup _ _).atHost.bind fun v => (scripted_wantTable v).bind fun packages => ?_
  refine (hh.lookup _ _).atHost.bind fun v => (scripted_wantString v).bind fun path => ?_
  refine (hh.lookup _ _).atHost.bind fun v => (scripted_wantFunction v).bind fun search => ?_
  refine (hh.call _ _).atHost.bind fun results => ?_
  refine (scripted_wantOptionalString _).bind fun found => ?_
  refine (scripted_wantOptionalString _).bind fun message => ?_
  cases found with
  | none => exact scripted_pure _
  | some file =>
    refine (scripted_load file).bind fun read => ?_
    cases read with
    | error e => exact scripted_fail _
    | ok source =>
      refine scripted_nestedCalls.bind fun nested => ?_
      split
      · exact scripted_fail _
      · exact (scripted_newProgram _ _).bind fun _ => scripted_pure _

theorem scripted_findLoader (name : Bytes) (searchers fuel index : Nat) (message : Bytes) :
    (findLoader h name searchers fuel index message).Scripted := by
  induction fuel generalizing index message with
  | zero => exact scripted_complain _
  | succ fuel ih =>
    refine (scripted_look _).bind fun searcher => ?_
    split
    · exact scripted_complain _
    · refine (hh.call _ _).bind fun results => ?_
      dsimp only
      split
      · exact scripted_pure _
      · split
        · exact ih _ _
        · exact ih _ _

theorem scripted_require : (require h arguments).Scripted := by
  refine (scripted_checkString _ _).bind fun given => (scripted_look _).bind fun loaded => ?_
  refine (hh.lookup _ _).bind fun cached => ?_
  dsimp only
  split
  · exact scripted_pure _
  refine (scripted_look _).bind fun packages => (hh.lookup _ _).bind fun v => ?_
  split
  · refine (scripted_look _).bind fun rounds => ?_
    refine (scripted_findLoader hh _ _ _ _ _).bind fun found => ?_
    refine (hh.call _ _).bind fun results => ?_
    refine Scripted.guarded (scripted_change _) fun _ => (hh.lookup _ _).bind fun v => ?_
    split
    · exact (scripted_change _).bind fun _ => scripted_pure _
    · exact scripted_pure _
  · exact scripted_complain _

/-! ## Values -/

theorem scripted_pcall : (pcall h arguments).Scripted := by
  refine (scripted_checkAny _).bind fun f => (hh.call _ _).attempt.bind fun r => ?_
  split <;> exact scripted_pure _

theorem scripted_ipairsStep : (ipairsStep h arguments).Scripted := by
  refine (scripted_checkWhole _ _).bind fun index => (hh.lookup _ _).bind fun v => ?_
  split <;> exact scripted_pure _

theorem scripted_texts (table : Value) (count : Nat) (index : Int) :
    (texts h table count index).Scripted := by
  induction count generalizing index with
  | zero => exact scripted_pure _
  | succ count ih =>
    refine (hh.lookup _ _).bind fun v => ?_
    split
    · exact (ih _).bind fun _ => scripted_pure _
    · exact scripted_complain _

theorem scripted_concat : (concat h arguments).Scripted := by
  refine (scripted_checkTable _ _).bind fun id => (scripted_make _).bind fun length => ?_
  refine .either (scripted_pure _) (scripted_checkString _ _) fun separator => ?_
  refine .either (scripted_pure _) ((scripted_checkWhole _ _).map _) fun first => ?_
  refine .either (scripted_pure _) ((scripted_checkWhole _ _).map _) fun last => ?_
  exact (scripted_texts hh _ _ _).bind fun _ => scripted_pure _

end

theorem scripted_error (arguments : List Value) : (error arguments).Scripted := by
  refine .either (scripted_pure _) ((scripted_checkWhole _ _).map _) fun level => ?_
  split
  · exact .ite ((scripted_position _).bind fun _ => scripted_raise _) (scripted_raise _)
  · exact scripted_raise _

theorem scripted_select (arguments : List Value) : (select arguments).Scripted := by
  refine .ite (scripted_pure _) ((scripted_checkWhole _ _).bind fun index => ?_)
  exact .ite (scripted_refuseArgument _ _) (scripted_pure _)

theorem scripted_setMetatable (arguments : List Value) :
    (setMetatable arguments).Scripted := by
  refine (scripted_checkTable _ _).bind fun id => ?_
  extract_lets change
  have hchange : ∀ m, (change m).Scripted := by
    intro m
    refine (scripted_look _).bind fun isProtected => .ite (scripted_complain _) ?_
    refine (scripted_look _).bind fun isLeftOut => .ite scripted_unfinished ?_
    exact (scripted_change _).bind fun _ => scripted_pure _
  split
  · exact hchange none
  · exact hchange (some _)
  · exact scripted_refuseType _ _ _

theorem scripted_ipairs (arguments : List Value) : (ipairs arguments).Scripted :=
  (scripted_checkAny _).bind fun _ => (scripted_newFunction _).bind fun _ => scripted_pure _

/-! ## All of them -/

theorem scripted_call {h : Host} (hh : h.Scripted) (b : Builtin) (arguments : List Value) :
    (call h b arguments).Scripted := by
  cases b with
  | glob => exact scripted_glob hh arguments
  | rule => exact scripted_rule hh arguments
  | matchPattern => exact scripted_matchPattern arguments
  | join => exact scripted_join arguments
  | isAbsolute | split | dirname | basename | splitExtension | extension | normalize =>
    exact scripted_onPath _ arguments
  | require => exact scripted_require hh arguments
  | findPreloaded => exact scripted_findPreloaded hh arguments
  | findFile => exact scripted_findFile hh arguments
  | findNative | idle => exact scripted_pure _
  | searchPath => exact scripted_searchPath arguments
  | loadNative | raise text => exact scripted_fail _
  | error => exact scripted_error arguments
  | pcall => exact scripted_pcall hh arguments
  | select => exact scripted_select arguments
  | tostring | type => exact (scripted_checkAny _).bind fun _ => scripted_pure _
  | setMetatable => exact scripted_setMetatable arguments
  | ipairs => exact scripted_ipairs arguments
  | ipairsStep => exact scripted_ipairsStep hh arguments
  | concat => exact scripted_concat hh arguments
  | leftOut => exact scripted_unfinished

end Library

end BuildScript.Script
