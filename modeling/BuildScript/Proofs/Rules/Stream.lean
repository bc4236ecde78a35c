import BuildScript.Rules.Stream
import BuildScript.Proofs.Rules.Rule

/-!
# What a stream of rules writes

The calls of whoever makes rules come in any order: rules are added, the list is finished, once
or many times, and more rules may follow in vain. On an output that stores everything, the text
is a function of the rules that were accepted and of whether the list is finished.

* `Stands`: the text, the count and the rules accepted so far belong together;
* `Stands.add`, `Stands.finish`: what one call makes of them;
* `Stands.run`: what any sequence of calls makes of them;
* `readRules_document`, `splitOn_document`: a finished text is read back as the rules, and has
  a line for each;
* `run_roundTrip`: all of it, from the opening of the list on.
-/

namespace BuildScript

open Files Json

/-- An output that stores all that is written to it, as long as its world is sound. -/
structure Files.Sink.StoresAll {ω : Type} (sink : Sink ω) (sound : ω → Prop)
    (text : ω → Bytes) : Prop where
  write : ∀ bs w, sound w →
    ∃ w', sink.write bs w = (.ok (), w') ∧ sound w' ∧ text w' = text w ++ bs
  flush : ∀ w, sound w → ∃ w', sink.flush w = (.ok (), w') ∧ sound w' ∧ text w' = text w

/-- An output in memory that has no limit. -/
def Files.LimitedOutput.Unlimited (o : LimitedOutput) : Prop :=
  o.limit = none ∧ o.failFlush = false

theorem Files.LimitedOutput.storesAll :
    LimitedOutput.sink.StoresAll LimitedOutput.Unlimited LimitedOutput.stored where
  write := by
    rintro bs o ⟨hlimit, hflush⟩
    have hroom : o.room bs.length = bs.length := by rw [LimitedOutput.room, hlimit]
    refine ⟨{ o with stored := o.stored ++ bs }, ?_, ⟨hlimit, hflush⟩, rfl⟩
    simp [LimitedOutput.sink, LimitedOutput.write, hroom]
  flush := by
    rintro o ⟨hlimit, hflush⟩
    refine ⟨{ o with flushes := o.flushes + 1 }, ?_, ⟨hlimit, hflush⟩, rfl⟩
    simp [LimitedOutput.sink, LimitedOutput.flush, hflush]

namespace RuleStream

variable {ω : Type} {sink : Sink ω} {sound : ω → Prop} {text : ω → Bytes}

/-! ## Calls -/

/-- What can be asked of a stream of rules. -/
inductive Call where
  | add (rule : Rule)
  | finish
  deriving DecidableEq

/-- What it answers. -/
inductive Reply where
  | added (result : Except RuleError Unit)
  | finished (result : Except RuleError Nat)

def perform (sink : Sink ω) (s : RuleStream) (w : ω) : Call → Reply × RuleStream × ω
  | .add rule => let r := s.add sink rule w; (.added r.1, r.2)
  | .finish => let r := s.finish sink w; (.finished r.1, r.2)

/-- Calls one after the other: the answers, and the stream and the world after them. -/
def run (sink : Sink ω) (s : RuleStream) (w : ω) : List Call → List Reply × RuleStream × ω
  | [] => ([], s, w)
  | call :: calls =>
    let r := perform sink s w call
    let more := run sink r.2.1 r.2.2 calls
    (r.1 :: more.1, more.2)

/-- The rule that a call adds, if the answer says that it was added. -/
def accepted? : Call → Reply → Option Rule
  | .add rule, .added (.ok _) => some rule
  | _, _ => none

/-- The rules that were added, in the order of the calls. -/
def accepted (calls : List Call) (replies : List Reply) : List Rule :=
  (calls.zip replies).filterMap fun p => accepted? p.1 p.2

/-! ## Texts -/

def newline : UInt8 := 0x0A

/-- The text of an open list. -/
def unfinished (rules : List Rule) : Bytes :=
  opening ++ List.intercalate separator (rules.map Rule.encode)

/-- The text of a list that is finished. -/
def document (rules : List Rule) : Bytes :=
  unfinished rules ++ ((if rules.isEmpty then [] else lastLineEnd) ++ closing)

/-- The lines between those of the brackets: a rule each, with a comma on all but the last. -/
def ruleLines : List Rule → List Bytes
  | [] => []
  | [rule] => [rule.encode]
  | rule :: rules => (rule.encode ++ [commaByte]) :: ruleLines rules

theorem opening_eq : opening = [openList, newline] := rfl

theorem separator_eq : separator = [commaByte, newline] := rfl

theorem lastLineEnd_eq : lastLineEnd = [newline] := rfl

theorem closing_eq : closing = [closeList, newline] := rfl

theorem unfinished_concat (rules : List Rule) (rule : Rule) :
    unfinished (rules ++ [rule]) =
      unfinished rules ++ ((if rules.isEmpty then [] else separator) ++ rule.encode) := by
  cases rules with
  | nil => simp [unfinished]
  | cons first rules =>
    rw [unfinished, unfinished, List.cons_append, intercalate_map_cons, intercalate_map_cons]
    simp

theorem blanks_newline : Blanks [newline] := by
  intro b hb
  obtain rfl := List.mem_singleton.1 hb
  rfl

/-- A finished text is a document that holds the rules. -/
theorem readRules_document (rules : List Rule) : readRules (document rules) = .ok rules := by
  have hws : Blanks (if rules.isEmpty then [] else [newline]) := by
    split
    · exact Rule.blanks_nil
    · exact blanks_newline
  have hlist := Rule.printed_encode.list_intercalate blanks_newline blanks_newline hws [newline]
    rules
  have hdoc : document rules = openList :: ([newline] ++
      (List.intercalate (commaByte :: [newline]) (rules.map Rule.encode) ++
        ((if rules.isEmpty then [] else [newline]) ++ closeList :: [newline]))) := by
    simp [document, unfinished, opening_eq, separator_eq, lastLineEnd_eq, closing_eq]
  rw [readRules, Json.document, hdoc, hlist]
  rfl

theorem newline_not_mem_encode (rule : Rule) : newline ∉ rule.encode := by
  intro h
  exact absurd (Rule.printable_of_mem_encode h) (by decide)

theorem newline_not_mem_ruleLines {rules : List Rule} {line : Bytes}
    (h : line ∈ ruleLines rules) : newline ∉ line := by
  induction rules with
  | nil => cases h
  | cons rule rules ih =>
    cases rules with
    | nil =>
      obtain rfl : line = rule.encode := by simpa [ruleLines] using h
      exact newline_not_mem_encode rule
    | cons next rules =>
      rcases List.mem_cons.1 h with rfl | h
      · intro hmem
        rcases List.mem_append.1 hmem with hmem | hmem
        · exact newline_not_mem_encode rule hmem
        · exact absurd (List.mem_singleton.1 hmem) (by decide)
      · exact ih h

theorem intercalate_ruleLines {rules : List Rule} (h : rules ≠ []) {more : List Bytes}
    (hmore : more ≠ []) :
    List.intercalate separator (rules.map Rule.encode) ++
      newline :: List.intercalate [newline] more =
      List.intercalate [newline] (ruleLines rules ++ more) := by
  induction rules with
  | nil => exact absurd rfl h
  | cons rule rules ih =>
    cases rules with
    | nil => simp [ruleLines, List.intercalate_cons_of_ne_nil hmore]
    | cons next rules =>
      have hne : ruleLines (next :: rules) ++ more ≠ [] := by simp [hmore]
      have hlines : ruleLines (rule :: next :: rules) =
          (rule.encode ++ [commaByte]) :: ruleLines (next :: rules) := rfl
      rw [List.map_cons, List.map_cons, List.intercalate_cons_cons, ← List.map_cons,
        List.append_assoc, List.append_assoc, ih (List.cons_ne_nil next rules), hlines,
        List.cons_append, List.intercalate_cons_of_ne_nil hne, separator_eq]
      simp

/-- The lines of a finished text. Nothing stands behind the last one. -/
theorem splitOn_document (rules : List Rule) :
    (document rules).splitOn newline =
      [openList] :: (ruleLines rules ++ [[closeList], []]) := by
  have hdoc : document rules =
      List.intercalate [newline] ([openList] :: (ruleLines rules ++ [[closeList], []])) := by
    cases rules with
    | nil => simp [document, unfinished, ruleLines, opening_eq, closing_eq]
    | cons rule rules =>
      have hlines := intercalate_ruleLines (List.cons_ne_nil rule rules)
        (List.cons_ne_nil [closeList] [[]])
      rw [List.intercalate_cons_of_ne_nil (by simp), ← hlines]
      simp [document, unfinished, opening_eq, lastLineEnd_eq, closing_eq]
  rw [hdoc]
  apply List.splitOn_intercalate
  · intro line hline
    simp only [List.mem_cons, List.mem_append, List.not_mem_nil, or_false] at hline
    rcases hline with rfl | hline | rfl | rfl
    · decide
    · exact newline_not_mem_ruleLines hline
    · decide
    · decide
  · exact List.cons_ne_nil _ _

/-! ## Runs -/

/-- The stream `s` and the world `w` are what the accepted rules have made of an output that
held `base` when the list was opened. -/
structure Stands (sound : ω → Prop) (text : ω → Bytes) (base : Bytes) (rules : List Rule)
    (s : RuleStream) (w : ω) : Prop where
  sound : sound w
  count : s.count = rules.length
  text : text w = base ++ if s.finished then document rules else unfinished rules

theorem begin_stands (h : sink.StoresAll sound text) {w : ω} (hw : sound w) :
    ∃ w', begin sink w = (.ok ⟨0, false⟩, w') ∧ Stands sound text (text w) [] ⟨0, false⟩ w' := by
  obtain ⟨w', hwrite, hsound, htext⟩ := h.write opening w hw
  refine ⟨w', ?_, ⟨hsound, rfl, ?_⟩⟩
  · rw [begin, put, hwrite]
    rfl
  · rw [htext]
    simp [unfinished]

theorem add_of_finished {s : RuleStream} (h : s.finished = true) (rule : Rule) (w : ω) :
    s.add sink rule w = (.error .finished, s, w) := by
  rw [add, if_pos h]

/-- A write that is made only behind other rules. -/
theorem put_between (h : sink.StoresAll sound text) {rules : List Rule} {s : RuleStream}
    (hcount : s.count = rules.length) (bs : Bytes) {w : ω} (hw : sound w) :
    ∃ w', (if 0 < s.count then put sink bs w else (.ok (), w)) = (.ok (), w') ∧ sound w' ∧
      text w' = text w ++ if rules.isEmpty then [] else bs := by
  cases rules with
  | nil =>
    refine ⟨w, ?_, hw, by simp⟩
    rw [if_neg (by rw [hcount]; exact Nat.lt_irrefl 0)]
  | cons first rules =>
    obtain ⟨w', hwrite, hsound, htext⟩ := h.write bs w hw
    refine ⟨w', ?_, hsound, by simpa using htext⟩
    rw [if_pos (by rw [hcount]; exact Nat.succ_pos _), put, hwrite]
    rfl

namespace Stands

variable {base : Bytes} {rules : List Rule} {s : RuleStream} {w : ω}

/-- A rule is added to a list that is open. -/
theorem add (h : sink.StoresAll sound text) (hs : Stands sound text base rules s w)
    (hopen : s.finished = false) (rule : Rule) :
    ∃ s' w', s.add sink rule w = (.ok (), s', w') ∧ s'.finished = false ∧
      Stands sound text base (rules ++ [rule]) s' w' := by
  obtain ⟨w₁, hput, hsound₁, htext₁⟩ := put_between h hs.count separator hs.sound
  obtain ⟨w₂, hwrite, hsound₂, htext₂⟩ := h.write rule.encode w₁ hsound₁
  refine ⟨{ s with count := s.count + 1 }, w₂, ?_, hopen, ⟨hsound₂, ?_, ?_⟩⟩
  · rw [RuleStream.add, if_neg (by simp [hopen]), hput]
    dsimp only
    rw [hwrite]
  · simp [hs.count]
  · rw [htext₂, htext₁, hs.text]
    simp [hopen, unfinished_concat]

/-- The list is finished, if it is not, and the same rules stand in it. -/
theorem finish (h : sink.StoresAll sound text) (hs : Stands sound text base rules s w) :
    ∃ s' w', s.finish sink w = (.ok rules.length, s', w') ∧ s'.finished = true ∧
      (s.finished = true → text w' = text w) ∧ Stands sound text base rules s' w' := by
  cases hfin : s.finished with
  | true =>
    obtain ⟨w', hflush, hsound, htext⟩ := h.flush w hs.sound
    refine ⟨{ s with finished := true }, w', ?_, rfl, fun _ => htext, ⟨hsound, hs.count, ?_⟩⟩
    · rw [RuleStream.finish, if_pos hfin]
      dsimp only
      rw [hflush, hs.count]
    · rw [htext, hs.text, hfin]
  | false =>
    obtain ⟨w₁, hput, hsound₁, htext₁⟩ := put_between h hs.count lastLineEnd hs.sound
    obtain ⟨w₂, hwrite, hsound₂, htext₂⟩ := h.write closing w₁ hsound₁
    obtain ⟨w₃, hflush, hsound₃, htext₃⟩ := h.flush w₂ hsound₂
    refine ⟨{ s with finished := true }, w₃, ?_, rfl, nofun, ⟨hsound₃, hs.count, ?_⟩⟩
    · rw [RuleStream.finish, if_neg (by simp [hfin]), hput]
      dsimp only
      rw [put, hwrite]
      dsimp only [Except.mapError]
      rw [hflush, hs.count]
    · rw [htext₃, htext₂, htext₁, hs.text, hfin]
      simp [document]

/-- One call: the rules that stand in the list grow by the one that was accepted, and a
finished list keeps its text. -/
theorem perform (h : sink.StoresAll sound text) (hs : Stands sound text base rules s w)
    (call : Call) :
    ∃ reply s' w', RuleStream.perform sink s w call = (reply, s', w') ∧
      s'.finished = (s.finished || decide (call = .finish)) ∧
      (s.finished = true → text w' = text w) ∧
      Stands sound text base (rules ++ (accepted? call reply).toList) s' w' := by
  cases call with
  | add rule =>
    cases hfin : s.finished with
    | true =>
      refine ⟨.added (.error .finished), s, w, ?_, by simp [hfin], fun _ => rfl, ?_⟩
      · rw [RuleStream.perform, add_of_finished hfin]
      · simpa [accepted?] using hs
    | false =>
      obtain ⟨s', w', hadd, hopen, hs'⟩ := hs.add h hfin rule
      refine ⟨.added (.ok ()), s', w', ?_, by simp [hopen], nofun, hs'⟩
      rw [RuleStream.perform, hadd]
  | finish =>
    obtain ⟨s', w', hfinish, hclosed, hsame, hs'⟩ := hs.finish h
    refine ⟨.finished (.ok rules.length), s', w', ?_, by simp [hclosed], hsame, ?_⟩
    · rw [RuleStream.perform, hfinish]
    · simpa [accepted?] using hs'

/-- Any sequence of calls. -/
theorem run (h : sink.StoresAll sound text) (hs : Stands sound text base rules s w)
    (calls : List Call) :
    ∃ replies s' w', RuleStream.run sink s w calls = (replies, s', w') ∧
      s'.finished = (s.finished || decide (Call.finish ∈ calls)) ∧
      (s.finished = true → text w' = text w) ∧
      Stands sound text base (rules ++ accepted calls replies) s' w' := by
  induction calls generalizing rules s w with
  | nil => exact ⟨[], s, w, rfl, by simp, fun _ => rfl, by simpa [accepted] using hs⟩
  | cons call calls ih =>
    obtain ⟨reply, s₁, w₁, hperform, hfin₁, hsame₁, hs₁⟩ := hs.perform h call
    obtain ⟨replies, s₂, w₂, hrun, hfin₂, hsame₂, hs₂⟩ := ih hs₁
    refine ⟨reply :: replies, s₂, w₂, ?_, ?_, ?_, ?_⟩
    · rw [RuleStream.run, hperform]
      dsimp only
      rw [hrun]
    · rw [hfin₂, hfin₁, Bool.or_assoc]
      simp [eq_comm]
    · intro hclosed
      rw [hsame₂ (by simp [hfin₁, hclosed]), hsame₁ hclosed]
    · have hacc : accepted (call :: calls) (reply :: replies) =
          (accepted? call reply).toList ++ accepted calls replies := by
        cases hc : accepted? call reply <;> simp [accepted, hc]
      rw [hacc, ← List.append_assoc]
      exact hs₂

end Stands

/-- What is seen of a list of rules that some calls have led to, on an output whose text was
`base` before the list was opened. -/
structure RoundTrips (sink : Sink ω) (text : ω → Bytes) (base : Bytes) (calls : List Call)
    (replies : List Reply) (s : RuleStream) (w : ω) : Prop where
  /-- Rules are accepted until the list is finished. -/
  accepts : Call.finish ∉ calls → ∀ rule, (s.add sink rule w).1 = .ok ()
  /-- From then on they are refused, and nothing happens. -/
  refuses : Call.finish ∈ calls → ∀ rule, s.add sink rule w = (.error .finished, s, w)
  count : s.count = (accepted calls replies).length
  finishes : (s.finish sink w).1 = .ok s.count
  /-- Nothing changes the text of a finished list. -/
  keeps : Call.finish ∈ calls → ∀ more, text (run sink s w more).2.2 = text w
  /-- The text of a finished list is read back as the accepted rules, and has a line for each. -/
  parses : Call.finish ∈ calls → ∃ doc, text w = base ++ doc ∧
    readRules doc = .ok (accepted calls replies) ∧
    doc.splitOn newline =
      [openList] :: (ruleLines (accepted calls replies) ++ [[closeList], []])

/-- On an output that stores everything, every sequence of calls leads to a list that is read
back as the rules accepted. -/
theorem run_roundTrip (h : sink.StoresAll sound text) {w : ω} (hw : sound w)
    (calls : List Call) :
    ∃ s₀ w₀ replies s' w', begin sink w = (.ok s₀, w₀) ∧
      run sink s₀ w₀ calls = (replies, s', w') ∧
      RoundTrips sink text (text w) calls replies s' w' := by
  obtain ⟨w₀, hbegin, hs₀⟩ := begin_stands h hw
  obtain ⟨replies, s', w', hrun, hfin, -, hs'⟩ := hs₀.run h calls
  rw [List.nil_append] at hs'
  refine ⟨⟨0, false⟩, w₀, replies, s', w', hbegin, hrun, ⟨?_, ?_, hs'.count, ?_, ?_, ?_⟩⟩
  · intro hopen rule
    obtain ⟨s₁, w₁, hadd, -, -⟩ := hs'.add h (by simpa [hopen] using hfin) rule
    rw [hadd]
  · intro hclosed rule
    exact add_of_finished (by simpa [hclosed] using hfin) rule w'
  · obtain ⟨s₁, w₁, hfinish, -, -, -⟩ := hs'.finish h
    rw [hfinish, hs'.count]
  · intro hclosed more
    obtain ⟨_, s₁, w₁, hmore, -, hsame, -⟩ := hs'.run h more
    rw [hmore]
    exact hsame (by simpa [hclosed] using hfin)
  · intro hclosed
    have hfin : s'.finished = true := by simpa [hclosed] using hfin
    refine ⟨document (accepted calls replies), ?_, readRules_document _, splitOn_document _⟩
    rw [hs'.text, if_pos hfin]

/-- Calls with control characters, quotes and a rule that comes too late. -/
def lateCalls : List Call :=
  [.add ⟨["a\n\"b"], ["\x01", ""], []⟩, .add ⟨[], [], ["é\\"]⟩, .finish, .add Rule.empty, .finish]

theorem run_roundTrip_lateCalls :
    LimitedOutput.Unlimited (LimitedOutput.empty none false) ∧
    ∃ s₀ w₀ replies s' w',
      begin LimitedOutput.sink (LimitedOutput.empty none false) = (.ok s₀, w₀) ∧
      run LimitedOutput.sink s₀ w₀ lateCalls = (replies, s', w') ∧
      RoundTrips LimitedOutput.sink LimitedOutput.stored [] lateCalls replies s' w' :=
  ⟨⟨rfl, rfl⟩, run_roundTrip LimitedOutput.storesAll ⟨rfl, rfl⟩ lateCalls⟩

end RuleStream

end BuildScript
