import BuildScript.Rules.Stream

/-!
# What a script asks for

A script acts on the world through requests alone, and what it does next depends on the
replies. An action is the tree of all that can happen: it is done, or it asks for something
and goes on with any reply.

* `Request`, `Request.Reply`: what can be asked for, and what comes back;
* `Action`: a result after some requests;
* `Action.run`: an action against whoever answers its requests.
-/

namespace BuildScript.Script

inductive Request where
  /-- The paths that a pattern finds. -/
  | expand (pattern : Bytes)
  /-- Whether a file can be opened. -/
  | probe (path : Bytes)
  /-- The source of a module. -/
  | load (path : Bytes)
  /-- One more rule. -/
  | emit (rule : Rule)
  /-- That a file was used. -/
  | report (path : Bytes)
  deriving DecidableEq

/-- What a request is answered with. There is no answer to a pattern whose walk does not
end. -/
abbrev Request.Reply : Request → Type
  | expand _ => Option (List Bytes)
  | probe _ => Bool
  | load _ => Except OsError Bytes
  | emit _ => Except RuleError Unit
  | report _ => Unit

inductive Action (α : Type) where
  | done (a : α)
  | ask (q : Request) (next : q.Reply → Action α)

namespace Action

variable {α β σ : Type}

def bind : Action α → (α → Action β) → Action β
  | done a, f => f a
  | ask q next, f => ask q fun r => (next r).bind f

/-- Whoever answers requests and remembers something. -/
abbrev Answers (σ : Type) := (q : Request) → σ → q.Reply × σ

/-- The result of an action, and what is remembered after all its requests. -/
def run (answers : Answers σ) : Action α → σ → α × σ
  | done a, s => (a, s)
  | ask q next, s => let r := answers q s; (next r.1).run answers r.2

@[simp] theorem run_done {answers : Answers σ} {a : α} {s : σ} :
    (done a).run answers s = (a, s) := rfl

@[simp] theorem run_ask {answers : Answers σ} {q : Request} {next : q.Reply → Action α}
    {s : σ} :
    (ask q next).run answers s = (next (answers q s).1).run answers (answers q s).2 := rfl

theorem run_bind {answers : Answers σ} {x : Action α} {f : α → Action β} {s : σ} :
    (x.bind f).run answers s = (f (x.run answers s).1).run answers (x.run answers s).2 := by
  induction x generalizing s with
  | done a => rfl
  | ask q next ih => exact ih _

end Action

end BuildScript.Script
