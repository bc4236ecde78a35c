import BuildScript.Proofs.Script.Functions
import BuildScript.Script.Environment

/-!
# What programs ask for

Whatever a program is made of, its requests are those of the functions that it calls, so it never
reports anything itself.

* `Operators.scripted_arithmetic`, `Evaluator.scripted_rounds`, …: what is done with single values;
* `Evaluator.Scripts`, `Evaluator.scripts`: expressions, statements and calls, by induction on the
  number of nested steps;
* `Evaluator.host_scripted`: calls and look-ups of functions given to scripts;
* `Evaluator.lookup_of_rawGet`, `Library.require_of_loaded`: for a value that is there, and for a
  module that is loaded, nothing is asked.
-/

namespace BuildScript.Script

open Run

/-! ## Operators -/

namespace Operators

theorem scripted_arithmetic (place : Place) (op : Binary) (f : Number → Number → Option Number)
    (a b : Operand) : (arithmetic place op f a b).Scripted := by
  unfold arithmetic
  dsimp only
  split
  · split
    · exact scripted_pure _
    · exact .ite (scripted_raise _) (scripted_failAt _ _)
  · exact .ite (scripted_failAt _ _) (scripted_failAt _ _)

theorem scripted_bitwise (place : Place) (f : Int64 → Int64 → Int64) (a b : Operand) :
    (bitwise place f a b).Scripted := by
  unfold bitwise
  split
  · split
    · exact scripted_pure _
    · exact scripted_failAt _ _
  · exact scripted_failAt _ _

theorem scripted_concatenate (place : Place) (a b : Operand) :
    (concatenate place a b).Scripted := by
  unfold concatenate
  split
  · exact scripted_pure _
  · exact scripted_failAt _ _

theorem scripted_length (place : Place) (a : Operand) : (length place a).Scripted := by
  unfold length
  split
  · exact scripted_pure _
  · exact (scripted_make _).bind fun _ => scripted_pure _
  · exact scripted_failAt _ _

theorem scripted_negate (place : Place) (a : Operand) : (negate place a).Scripted := by
  unfold negate
  split
  · exact scripted_pure _
  · exact .ite (scripted_failAt _ _) (scripted_failAt _ _)

theorem scripted_inOrder (place : Place) (numbers : Number → Number → Bool)
    (texts : Bytes → Bytes → Bool) (a b : Value) :
    (inOrder place numbers texts a b).Scripted := by
  unfold inOrder
  split
  · exact scripted_pure _
  · exact scripted_pure _
  · exact scripted_failAt _ _

end Operators

namespace Evaluator

open Operators

/-! ## Variables and targets -/

theorem scripted_declare (level : Nat) (names : List Bytes) (values : List Value)
    (scope : List Binding) : (declare level names values scope).Scripted := by
  induction names generalizing values scope with
  | nil => exact scripted_pure _
  | cons n names ih => exact (scripted_newCell _).bind fun _ => ih _ _

theorem scripted_failHere {α : Type} (at? : Option Place) (message : Bytes) :
    (failHere at? message : Run α).Scripted := by
  cases at? with
  | none => exact scripted_raise _
  | some p => exact scripted_failAt _ _

theorem scripted_release (held : Held) : (release held).Scripted := by
  cases held with
  | value v => exact scripted_pure _
  | cell id => exact scripted_look _

theorem scripted_assign (p : Place) (spot : Spot) (v : Value) :
    (assign p spot v).Scripted := by
  cases spot with
  | cell id => exact scripted_change _
  | field object subject key =>
    refine (scripted_release _).bind fun o => (scripted_release _).bind fun k => ?_
    split
    · exact scripted_failAt _ _
    · exact scripted_failAt _ _
    · exact scripted_put _ _ _
    · exact scripted_failAt _ _

theorem scripted_takeOut (assigned : List Nat) (held : Held) :
    (takeOut assigned held).Scripted := by
  cases held with
  | value v => exact scripted_pure _
  | cell id => exact .ite ((scripted_look _).bind fun _ => scripted_pure _) (scripted_pure _)

theorem scripted_settle (spots : List Spot) : (settle spots).Scripted := by
  induction spots with
  | nil => exact scripted_pure _
  | cons spot rest ih =>
    cases spot with
    | cell id => exact ih.bind fun _ => scripted_pure _
    | field object subject key =>
      refine (scripted_takeOut _ _).bind fun _ => (scripted_takeOut _ _).bind fun _ => ?_
      exact ih.bind fun _ => scripted_pure _

theorem scripted_rounds (p : Place) (first last step : Value) :
    (rounds p first last step).Scripted := by
  unfold rounds
  extract_lets number
  have hnumber (what : String) (v : Value) : (number what v).Scripted := by
    dsimp only [number]
    split
    · exact scripted_pure _
    · exact scripted_failAt _ _
  dsimp only
  split
  · refine .ite (scripted_failAt _ _) ((hnumber _ _).bind fun l => ?_)
    split
    · exact scripted_pure _
    · exact .ite (scripted_pure _) (scripted_pure _)
  · refine (hnumber _ _).bind fun l => (hnumber _ _).bind fun d => (hnumber _ _).bind fun i => ?_
    exact .ite (scripted_failAt _ _) (scripted_pure _)

/-! ## Programs -/

/-- That with so many nested steps nothing in a program makes other requests than scripts do. -/
structure Scripts (fuel : Nat) : Prop where
  value : ∀ a scope e, (value fuel a scope e).Scripted
  operand : ∀ a scope e, (operand fuel a scope e).Scripted
  access : ∀ a scope object key, (access fuel a scope object key).Scripted
  values : ∀ a scope e, (values fuel a scope e).Scripted
  method : ∀ a scope object field line, (method fuel a scope object field line).Scripted
  list : ∀ a scope es, (list fuel a scope es).Scripted
  items : ∀ a scope parts t before waiting, (items fuel a scope parts t before waiting).Scripted
  callAt : ∀ p called f arguments, (callAt fuel p called f arguments).Scripted
  lastCall : ∀ p called f arguments, (lastCall fuel p called f arguments).Scripted
  callFromHost : ∀ called f arguments, (callFromHost fuel called f arguments).Scripted
  apply : ∀ f callee fromHost arguments, (apply fuel f callee fromHost arguments).Scripted
  lookup : ∀ hops at? called object key, (lookup fuel hops at? called object key).Scripted
  block : ∀ a scope stmts, (block fuel a scope stmts).Scripted
  inner : ∀ a scope stmts, (inner fuel a scope stmts).Scripted
  statement : ∀ a scope s, (statement fuel a scope s).Scripted
  spots : ∀ a scope targets, (spots fuel a scope targets).Scripted

namespace Scripts

variable {fuel : Nat} (ih : Scripts fuel) (a : Activation) (scope : List Binding)
include ih

/-! ### Expressions -/

omit ih in
theorem scripted_binary (p : Place) (op : Binary) (x y : Operand) :
    (value.binary p op x y).Scripted := by
  unfold value.binary
  split
  · exact scripted_arithmetic _ _ _ _ _
  · exact scripted_bitwise _ _ _ _
  · exact scripted_concatenate _ _ _
  · exact scripted_pure _
  · exact scripted_pure _
  · exact scripted_inOrder _ _ _ _ _
  · exact scripted_inOrder _ _ _ _ _
  · exact scripted_inOrder _ _ _ _ _
  · exact scripted_inOrder _ _ _ _ _

theorem value_succ (e : Expr) : (Evaluator.value (fuel + 1) a scope e).Scripted := by
  unfold Evaluator.value
  cases e with
  | nil | bool | number | string | rest => exact scripted_pure _
  | name n =>
    dsimp only
    split
    · exact scripted_look _
    · exact scripted_pure _
  | index object key line =>
    refine (ih.access _ _ _ _).bind fun p => ?_
    exact (scripted_onLine _).bind fun _ => ih.lookup _ _ _ _ _
  | function body => exact scripted_newFunction _
  | unary op x line =>
    refine (ih.operand _ _ _).bind fun o => ?_
    cases op with
    | not => exact scripted_pure _
    | negate => exact scripted_negate _ _
    | length => exact scripted_length _ _
    | complement => exact scripted_bitwise _ _ _ _
  | binary op l r line =>
    refine .ite ?_ ?_ <;>
      exact (ih.operand _ _ _).bind fun _ => (ih.operand _ _ _).bind fun _ =>
        scripted_binary _ _ _ _
  | both l r =>
    exact (ih.value _ _ _).bind fun v => .ite (ih.value _ _ _) (scripted_pure _)
  | either l r =>
    exact (ih.value _ _ _).bind fun v => .ite (scripted_pure _) (ih.value _ _ _)
  | single e => exact ih.value _ _ _
  | table parts => exact (ih.items _ _ _ _ _ _).bind fun _ => scripted_newTable _
  | call | invoke => exact (ih.values _ _ _).bind fun _ => scripted_pure _

theorem operand_succ (e : Expr) : (Evaluator.operand (fuel + 1) a scope e).Scripted := by
  unfold Evaluator.operand
  exact (ih.value _ _ _).bind fun _ => scripted_pure _

theorem access_succ (object key : Expr) :
    (Evaluator.access (fuel + 1) a scope object key).Scripted := by
  unfold Evaluator.access
  split
  · exact (ih.value _ _ _).bind fun _ => (ih.operand _ _ _).bind fun _ => scripted_pure _
  · exact (ih.operand _ _ _).bind fun _ => (ih.value _ _ _).bind fun _ => scripted_pure _

theorem values_succ (e : Expr) : (Evaluator.values (fuel + 1) a scope e).Scripted := by
  unfold Evaluator.values
  dsimp only
  split
  · exact scripted_pure _
  · refine (ih.value _ _ _).bind fun f => (ih.list _ _ _).bind fun given => ?_
    exact ih.callAt _ _ _ _
  · refine (ih.method _ _ _ _ _).bind fun p => (ih.list _ _ _).bind fun given => ?_
    exact ih.callAt _ _ _ _
  · exact (ih.value _ _ _).bind fun _ => scripted_pure _

theorem method_succ (object : Expr) (field : Bytes) (line : Nat) :
    (Evaluator.method (fuel + 1) a scope object field line).Scripted := by
  unfold Evaluator.method
  refine (ih.operand _ _ _).bind fun o => (scripted_onLine _).bind fun _ => ?_
  exact (ih.lookup _ _ _ _ _).bind fun _ => scripted_pure _

theorem list_succ (es : List Expr) : (Evaluator.list (fuel + 1) a scope es).Scripted := by
  unfold Evaluator.list
  split
  · exact scripted_pure _
  · exact ih.values _ _ _
  · exact (ih.value _ _ _).bind fun _ => (ih.list _ _ _).bind fun _ => scripted_pure _

theorem items_succ (parts : List Item) (t : Table) (before : Nat) (waiting : List Value) :
    (Evaluator.items (fuel + 1) a scope parts t before waiting).Scripted := by
  unfold Evaluator.items
  dsimp only
  split
  · exact scripted_pure _
  · exact (ih.values _ _ _).bind fun _ => scripted_pure _
  · refine (ih.value _ _ _).bind fun v => ?_
    exact .ite (ih.items _ _ _ _ _ _) (ih.items _ _ _ _ _ _)
  · refine .ite ?_ ?_ <;>
      refine (ih.value _ _ _).bind fun _ => (ih.value _ _ _).bind fun _ =>
        (scripted_pure _).bind fun p => ?_
    all_goals
      split
      · exact scripted_failAt _ _
      · exact scripted_failAt _ _
      · exact ih.items _ _ _ _ _ _

/-! ### Calls -/

theorem callAt_succ (p : Place) (called : Option Subject) (f : Value) (arguments : List Value) :
    (Evaluator.callAt (fuel + 1) p called f arguments).Scripted := by
  unfold Evaluator.callAt
  split
  · refine (scripted_onLine _).bind fun _ => (scripted_look _).bind fun found => ?_
    split
    · exact ih.apply _ _ _ _
    · exact scripted_pure _
  · exact scripted_failAt _ _

theorem lastCall_succ (p : Place) (called : Option Subject) (f : Value)
    (arguments : List Value) :
    (Evaluator.lastCall (fuel + 1) p called f arguments).Scripted := by
  unfold Evaluator.lastCall
  -- `go` is what comes behind both ways of finding the function
  extract_lets go
  have hgo : ∀ found, (go found).Scripted := by
    intro found
    dsimp only [go]
    split
    · exact scripted_pure _
    · exact (ih.callAt _ _ _ _).bind fun _ => scripted_pure _
  split
  · exact (scripted_look _).bind hgo
  · exact (scripted_pure _).bind hgo

theorem callFromHost_succ (called : Option Subject) (f : Value) (arguments : List Value) :
    (Evaluator.callFromHost (fuel + 1) called f arguments).Scripted := by
  unfold Evaluator.callFromHost
  split
  · refine (scripted_look _).bind fun found => ?_
    split
    · exact ih.apply _ _ _ _
    · exact scripted_pure _
  · exact scripted_raise _

theorem apply_succ (f : Function) (callee : Callee) (fromHost : Bool) (arguments : List Value) :
    (Evaluator.apply (fuel + 1) f callee fromHost arguments).Scripted := by
  unfold Evaluator.apply
  cases f with
  | script body scope chunk level =>
    refine scripted_loop ?_ _ _
    intro flow
    split
    · refine Scripted.map (Scripted.within ?_ _ _) _
      exact (scripted_declare _ _ _ _).bind fun _ => ih.block _ _ _
    · exact scripted_pure _
    · exact scripted_pure _
  | host b =>
    refine Scripted.within (Library.scripted_call ?_ b arguments) _ _
    exact ⟨fun f arguments => ih.callFromHost _ f arguments,
      fun object key => ih.lookup _ _ _ object key⟩

theorem lookup_succ (hops : Nat) (at? : Option Place) (called : Option Subject)
    (object key : Value) :
    (Evaluator.lookup (fuel + 1) hops at? called object key).Scripted := by
  unfold Evaluator.lookup
  -- `go` is what comes behind the look into the table, if there is one
  extract_lets standIn go
  have hgo : ∀ direct, (go direct).Scripted := by
    intro direct
    refine .ite (scripted_pure _) ((scripted_look _).bind fun beyond => ?_)
    split
    · exact scripted_pure _
    · exact scripted_failHere _ _
    · exact (ih.callFromHost _ _ _).bind fun _ => scripted_pure _
    · split
      · exact scripted_failHere _ _
      · exact ih.lookup _ _ _ _ _
  split
  · exact (scripted_make _).bind hgo
  · exact (scripted_pure _).bind hgo

/-! ### Statements -/

theorem block_succ (stmts : List Stmt) : (Evaluator.block (fuel + 1) a scope stmts).Scripted := by
  unfold Evaluator.block
  cases stmts with
  | nil => exact scripted_pure _
  | cons s rest =>
    refine (ih.statement _ _ _).bind fun flow => ?_
    split
    · exact ih.block _ _ _
    · exact scripted_pure _

theorem inner_succ (stmts : List Stmt) : (Evaluator.inner (fuel + 1) a scope stmts).Scripted := by
  unfold Evaluator.inner
  refine (ih.block _ _ _).bind fun flow => ?_
  split <;> exact scripted_pure _

theorem spots_succ (targets : List Target) :
    (Evaluator.spots (fuel + 1) a scope targets).Scripted := by
  unfold Evaluator.spots
  cases targets with
  | nil => exact scripted_pure _
  | cons target rest =>
    cases target with
    | field object key =>
      exact (ih.access _ _ _ _).bind fun _ => (ih.spots _ _ _).bind fun _ => scripted_pure _
    | «variable» n =>
      dsimp only
      split
      · exact (ih.spots _ _ _).bind fun _ => scripted_pure _
      · exact (scripted_newCell _).bind fun _ => (ih.spots _ _ _).bind fun _ => scripted_pure _

theorem statement_succ (s : Stmt) : (Evaluator.statement (fuel + 1) a scope s).Scripted := by
  unfold Evaluator.statement
  -- a case for each kind of statement, in the order of the definition
  split
  · exact (ih.list _ _ _).bind fun _ => (scripted_declare _ _ _ _).bind fun _ => scripted_pure _
  · refine (scripted_declare _ _ _ _).bind fun scope => (scripted_newFunction _).bind fun f => ?_
    dsimp only
    split
    · exact (scripted_change _).bind fun _ => scripted_pure _
    · exact scripted_pure _
  · refine (ih.spots _ _ _).bind fun targets => (scripted_settle _).bind fun spots => ?_
    refine (ih.list _ _ _).bind fun vs => ?_
    exact (scripted_forM (fun _ => scripted_assign _ _ _) _).bind fun _ => scripted_pure _
  · exact (ih.values _ _ _).bind fun _ => scripted_pure _
  · exact ih.inner _ _ _
  · exact (ih.value _ _ _).bind fun _ => ih.inner _ _ _
  · refine scripted_loop (fun _ => (ih.value _ _ _).bind fun v => ?_) _ _
    exact .ite ((ih.block _ _ _).bind fun _ => scripted_pure _) (scripted_pure _)
  · refine scripted_loop (fun _ => (ih.block _ _ _).bind fun flow => ?_) _ _
    split
    · exact (ih.value _ _ _).bind fun v => .ite (scripted_pure _) (scripted_pure _)
    · exact scripted_pure _
  · refine (ih.value _ _ _).bind fun i => (ih.value _ _ _).bind fun l => ?_
    extract_lets go
    have hgo : ∀ d, (go d).Scripted := by
      intro d
      refine (scripted_rounds _ _ _ _).bind fun all => scripted_loop (fun r => ?_) _ _
      split
      · exact scripted_pure _
      · refine (scripted_declare _ _ _ _).bind fun inside => ?_
        exact (ih.block _ _ _).bind fun _ => scripted_pure _
    split
    · exact (ih.value _ _ _).bind hgo
    · exact (scripted_pure _).bind hgo
  · refine (ih.list _ _ _).bind fun vs => Scripted.guarded scripted_unfinished fun _ => ?_
    refine scripted_loop (fun control => (ih.callAt _ _ _ _).bind fun vs => ?_) _ _
    split
    · exact scripted_pure _
    · refine (scripted_declare _ _ _ _).bind fun inside => ?_
      exact (ih.block _ _ _).bind fun _ => scripted_pure _
  · exact scripted_pure _
  · refine (ih.value _ _ _).bind fun f => (ih.list _ _ _).bind fun given => ?_
    exact ih.lastCall _ _ _ _
  · refine (ih.method _ _ _ _ _).bind fun p => (ih.list _ _ _).bind fun given => ?_
    exact ih.lastCall _ _ _ _
  · exact (ih.list _ _ _).bind fun _ => scripted_pure _
  · exact scripted_unfinished

end Scripts

theorem scripts (fuel : Nat) : Scripts fuel := by
  induction fuel with
  | zero =>
    constructor <;> intros <;> exact scripted_unfinished
  | succ fuel ih =>
    exact {
      value := ih.value_succ
      operand := ih.operand_succ
      access := ih.access_succ
      values := ih.values_succ
      method := ih.method_succ
      list := ih.list_succ
      items := ih.items_succ
      callAt := ih.callAt_succ
      lastCall := ih.lastCall_succ
      callFromHost := ih.callFromHost_succ
      apply := ih.apply_succ
      lookup := ih.lookup_succ
      block := ih.block_succ
      inner := ih.inner_succ
      statement := ih.statement_succ
      spots := ih.spots_succ }

theorem host_scripted (fuel : Nat) : (host fuel).Scripted :=
  ⟨(scripts fuel).callFromHost none, (scripts fuel).lookup maxHops none none⟩

/-! ## Without a request -/

/-- A value that is there is found as it is. -/
theorem lookup_of_rawGet {s : Store} {id : Nat} {key v : Value} (found : s.rawGet id key = v)
    (hv : v.isNil = false) (fuel hops : Nat) (at? : Option Place) (called : Option Subject) :
    lookup (fuel + 1) hops at? called (.table id) key s =
      .done (.value v, (s.readTable id key).2) := by
  have read : make (·.readTable id key) s = .done (.value v, (s.readTable id key).2) := by
    rw [← found]
    rfl
  unfold lookup
  refine (bind_of_value read _).trans ?_
  simp only [hv]
  rfl

end Evaluator

/-- A module that is loaded is given as it is. -/
theorem Library.require_of_loaded {s : Store} {name : Bytes} {v : Value}
    (loaded : s.rawGet s.loaded (.string name.untilNul) = v) (hv : v.isTrue = true) (steps : Nat)
    (others : List Value) :
    require (Evaluator.host (steps + 1)) (.string name :: others) s =
      .done (.value [v], (s.readTable s.loaded (.string name.untilNul)).2) := by
  have present : v.isNil = false := by
    cases v <;> simp_all [Value.isTrue, Value.isNil]
  have found := Evaluator.lookup_of_rawGet loaded present steps Evaluator.maxHops none none
  refine (bind_of_value rfl _).trans ?_
  refine (bind_of_value rfl _).trans ?_
  refine (bind_of_value found _).trans ?_
  rw [if_pos hv]
  rfl

end BuildScript.Script
