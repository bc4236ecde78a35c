import BuildScript.Deps.Sender

/-!
# The life of a sender

A sender lives until its output is taken out of it or it is dropped. Whoever holds one at the
end drops it.

* `Step`: what can be done with a sender;
* `Life.step`: what one step does;
* `Life.finish`: the end.
-/

namespace BuildScript.Deps

inductive Step where
  | send (r : Record)
  | flush
  | rewrap
  | release
  | drop
  deriving DecidableEq

/-- What a step tells. -/
inductive Outcome where
  | nothing
  | done (result : Except IoError Unit)
  /-- The output was taken out; there was one or not. -/
  | released (present : Bool)
  /-- There was no sender any more. -/
  | gone

/-- A sender that may be gone, and the warnings so far. -/
structure Life (ω : Type) where
  sender : Option (Sender ω)
  warnings : List Warning

namespace Life

variable {ω : Type}

def begin (sender : Sender ω) : Life ω := ⟨some sender, []⟩

/-- Drops the sender, if it is still there. -/
def finish (l : Life ω) (w : ω) : Life ω × ω :=
  match l.sender with
  | none => (l, w)
  | some s => let r := s.drop w; (⟨none, l.warnings ++ r.1⟩, r.2)

def step (l : Life ω) (s : Step) (w : ω) : Outcome × Life ω × ω :=
  match l.sender, s with
  | none, .rewrap => (.nothing, l, w)
  | none, _ => (.gone, l, w)
  | some sender, .send r => let q := sender.send r w; (.done q.1, l, q.2)
  | some sender, .flush => let q := sender.flush w; (.done q.1, l, q.2)
  | some sender, .rewrap =>
    let q := sender.rewrap w; (.nothing, ⟨some q.1, l.warnings ++ q.2.1⟩, q.2.2)
  | some sender, .release =>
    let q := sender.release w; (.released q.1.isSome, ⟨none, l.warnings ++ q.2.1⟩, q.2.2)
  | some _, .drop => let q := l.finish w; (.nothing, q.1, q.2)

end Life

end BuildScript.Deps
