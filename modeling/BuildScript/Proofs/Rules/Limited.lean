import BuildScript.Proofs.Files.Limits
import BuildScript.Proofs.Rules.Torn

/-!
# Rules on an output that takes a fixed number of bytes

Where the output takes no more, a call fails and the stream stays as it was, and so the calls after it
write other bytes than they would without a limit. None of these bytes is stored. So all that the
limit does is to cut the text, and to make the calls fail from there on.

* `Piece`, `labelled`: what the bytes of a finished text belong to;
* `perform_of_fits`, `perform_of_not_fits`: a call within the limit, and the first one that is not;
* `run_overfull`: calls behind that one;
* `run_limited`: calls one after the other, against what they write without a limit;
* `limited_cuts`: rules and a closing, made once or several times.
-/

namespace BuildScript

theorem Rule.encode_ne_nil (r : Rule) : r.encode ≠ [] := List.cons_ne_nil _ _

namespace RuleStream

open Files Json

theorem closing_ne_nil : closing ≠ [] := List.cons_ne_nil _ _

/-! ## Bytes and what they belong to -/

/-- What a byte of a text of rules belongs to. -/
inductive Piece where
  /-- The brackets of the list, the commas between the rules and the line ends. -/
  | frame
  /-- One of the rules. -/
  | object
  deriving DecidableEq

/-- What is said of an output that does not take a byte. -/
def Piece.fault : Piece → RuleError
  | frame => .io .writerFull
  | object => .encode .writerFull

/-- Bytes that all belong to the same. -/
def Piece.mark (p : Piece) (bs : Bytes) : List (Piece × UInt8) := bs.map (p, ·)

@[simp] theorem Piece.map_mark (p : Piece) (bs : Bytes) : (p.mark bs).map Prod.snd = bs := by
  simp [mark, Function.comp_def]

@[simp] theorem Piece.length_mark (p : Piece) (bs : Bytes) : (p.mark bs).length = bs.length :=
  List.length_map ..

theorem Piece.exists_getElem?_mark (p : Piece) {bs : Bytes} {i : Nat} (h : i < bs.length) :
    ∃ b, (p.mark bs)[i]? = some (p, b) :=
  ⟨bs[i], by rw [mark, List.getElem?_map, List.getElem?_eq_getElem h, Option.map_some]⟩

theorem Piece.getElem?_mark_append_left (p : Piece) {bs : Bytes} (more : List (Piece × UInt8))
    {i : Nat} (h : i < bs.length) : ∃ b, (p.mark bs ++ more)[i]? = some (p, b) := by
  rw [List.getElem?_append_left (by rwa [length_mark])]
  exact p.exists_getElem?_mark h

theorem Piece.getElem?_mark_append_right (p q : Piece) {bs cs : Bytes} {i : Nat}
    (hleft : bs.length ≤ i) (hright : i < bs.length + cs.length) :
    ∃ c, (p.mark bs ++ q.mark cs)[i]? = some (q, c) := by
  rw [List.getElem?_append_right (by rwa [length_mark]), length_mark]
  exact q.exists_getElem?_mark (by omega)

/-- Rules with separators between them. -/
def labelledRules : List Rule → List (Piece × UInt8)
  | [] => []
  | rule :: rules => Piece.object.mark rule.encode ++
      rules.flatMap fun r => Piece.frame.mark separator ++ Piece.object.mark r.encode

/-- The text of a finished list, where each byte tells what it belongs to. -/
def labelled (rules : List Rule) : List (Piece × UInt8) :=
  Piece.frame.mark opening ++ labelledRules rules ++
    Piece.frame.mark ((if rules.isEmpty then [] else lastLineEnd) ++ closing)

theorem map_labelled (rules : List Rule) : (labelled rules).map Prod.snd = document rules := by
  have hrules : (labelledRules rules).map Prod.snd =
      List.intercalate separator (rules.map Rule.encode) := by
    cases rules with
    | nil => rfl
    | cons rule rules =>
      rw [intercalate_map_cons]
      simp [labelledRules, List.map_flatMap]
  simp [labelled, hrules, document, unfinished]

/-! ## Calls -/

/-- What a call answers, and the stream after it, where all that it writes is stored. -/
def settle (s : RuleStream) : Call → Reply × RuleStream
  | .add _ =>
    if s.finished then (.added (.error .finished), s)
    else (.added (.ok ()), { s with count := s.count + 1 })
  | .finish => (.finished (.ok s.count), { s with finished := true })

/-- What a call writes. -/
def writes (s : RuleStream) (call : Call) : List (Piece × UInt8) :=
  if s.finished then []
  else
    match call with
    | .add rule => Piece.frame.mark (s.lead separator) ++ Piece.object.mark rule.encode
    | .finish => Piece.frame.mark (s.lead lastLineEnd ++ closing)

theorem map_writes {s : RuleStream} (hopen : s.finished = false) (call : Call) :
    (s.writes call).map Prod.snd = s.whole call := by
  unfold writes
  rw [if_neg (by rw [hopen]; exact Bool.false_ne_true)]
  cases call <;> simp [whole]

theorem writes_of_finished {s : RuleStream} (h : s.finished = true) (call : Call) :
    s.writes call = [] := if_pos h

def Call.refused : Call → RuleError → Reply
  | .add _, e => .added (.error e)
  | .finish, e => .finished (.error e)

def Reply.fault? : Reply → Option RuleError
  | .added (.error e) | .finished (.error e) => some e
  | _ => none

variable {limit : Option Nat} {text : Bytes} {s : RuleStream} (flushes : Nat)

theorem put_lead_of_fits {bs : Bytes} (h : s.lead bs = [] ∨ Fits limit (text ++ s.lead bs)) :
    (if 0 < s.count then put LimitedOutput.sink bs (.after limit false text flushes)
      else (.ok (), .after limit false text flushes)) =
      (.ok (), .after limit false (text ++ s.lead bs) flushes) := by
  by_cases hsome : 0 < s.count
  · simp only [lead, if_pos hsome] at h ⊢
    exact put_of_ok ((LimitedOutput.write_after bs).trans (by rw [if_pos h]))
  · simp only [lead, if_neg hsome, List.append_nil]

theorem put_lead_of_not_fits {bs : Bytes}
    (h : ¬ (s.lead bs = [] ∨ Fits limit (text ++ s.lead bs))) :
    (if 0 < s.count then put LimitedOutput.sink bs (.after limit false text flushes)
      else (.ok (), .after limit false text flushes)) =
      (.error (.io .writerFull), .after limit false (text ++ s.lead bs) flushes) := by
  by_cases hsome : 0 < s.count
  · simp only [lead, if_pos hsome] at h ⊢
    exact put_of_error ((LimitedOutput.write_after bs).trans (by rw [if_neg h]))
  · exact absurd (.inl (if_neg hsome)) h

/-- A call that writes no more than fits does what it does without a limit. -/
theorem perform_of_fits {call : Call} (h : Fits limit (text ++ (s.writes call).map Prod.snd)) :
    ∃ n, perform LimitedOutput.sink s (.after limit false text flushes) call =
      ((s.settle call).1, (s.settle call).2,
        .after limit false (text ++ (s.writes call).map Prod.snd) n) := by
  cases hfin : s.finished with
  | true =>
    rw [writes_of_finished hfin, List.map_nil, List.append_nil]
    cases call with
    | add rule => exact ⟨flushes, by simp only [perform, add_of_finished hfin, settle, hfin, if_true]⟩
    | finish =>
      refine ⟨flushes + 1, ?_⟩
      simp only [perform, finish, hfin, if_true, settle]
      rfl
  | false =>
    rw [map_writes hfin] at h ⊢
    cases call with
    | add rule =>
      rw [whole, ← List.append_assoc] at h ⊢
      refine ⟨flushes, ?_⟩
      simp only [perform, add, settle, hfin, Bool.false_eq_true, if_false,
        put_lead_of_fits _ (.inr h.of_append)]
      have hwrite : (LimitedOutput.after limit false (text ++ s.lead separator) flushes).write
          rule.encode = _ := LimitedOutput.write_after_of_fits h
      simp only [LimitedOutput.sink, hwrite]
    | finish =>
      rw [whole, ← List.append_assoc] at h ⊢
      refine ⟨flushes + 1, ?_⟩
      have hclosing : put LimitedOutput.sink closing
          (.after limit false (text ++ s.lead lastLineEnd) flushes) = _ :=
        put_of_ok (LimitedOutput.write_after_of_fits h)
      simp only [perform, finish, settle, hfin, Bool.false_eq_true, if_false,
        put_lead_of_fits _ (.inr h.of_append), hclosing]
      rfl

section
variable {limit : Nat} (hopen : s.finished = false)
include hopen

/-- A rule that does not fit is cut, or what stands before it is. -/
theorem add_of_not_fits (rule : Rule)
    (h : ¬ Fits (some limit) (text ++ s.lead separator ++ rule.encode)) :
    ∃ p : Piece, s.add LimitedOutput.sink rule (.after (some limit) false text flushes) =
        (.error p.fault, s,
          .after (some limit) false (text ++ s.lead separator ++ rule.encode) flushes) ∧
      (Fits (some limit) text →
        ∃ b, (s.writes (.add rule))[limit - text.length]? = some (p, b)) := by
  have hwrites : s.writes (.add rule) =
      Piece.frame.mark (s.lead separator) ++ Piece.object.mark rule.encode :=
    if_neg (by rw [hopen]; exact Bool.false_ne_true)
  rw [hwrites]
  by_cases hlead : s.lead separator = [] ∨ Fits (some limit) (text ++ s.lead separator)
  · refine ⟨.object, ?_, ?_⟩
    · have hwrite : (LimitedOutput.after (some limit) false (text ++ s.lead separator) flushes).write
          rule.encode = _ := LimitedOutput.write_after_of_not_fits rule.encode_ne_nil h
      simp only [add, hopen, Bool.false_eq_true, if_false, put_lead_of_fits _ hlead]
      simp only [LimitedOutput.sink, hwrite]
      rfl
    · intro htext
      have hbefore : text.length + (s.lead separator).length ≤ limit := by
        rcases hlead with hnil | hfits
        · rw [hnil]
          exact fits_some.1 htext
        · simpa using hfits
      have hcut : limit < text.length + (s.lead separator).length + rule.encode.length := by
        simpa [Nat.add_assoc] using h
      exact Piece.frame.getElem?_mark_append_right .object (by omega) (by omega)
  · refine ⟨.frame, ?_, ?_⟩
    · simp only [add, hopen, Bool.false_eq_true, if_false, put_lead_of_not_fits _ hlead]
      rw [LimitedOutput.after_append_of_full (not_or.1 hlead).2]
      rfl
    · intro htext
      have hcut : limit < text.length + (s.lead separator).length := by
        simpa using (not_or.1 hlead).2
      rw [fits_some] at htext
      exact Piece.frame.getElem?_mark_append_left _ (by omega)

/-- A closing that does not fit is cut. -/
theorem finish_of_not_fits (h : ¬ Fits (some limit) (text ++ s.lead lastLineEnd ++ closing)) :
    s.finish LimitedOutput.sink (.after (some limit) false text flushes) =
        (.error Piece.frame.fault, s,
          .after (some limit) false (text ++ s.lead lastLineEnd ++ closing) flushes) ∧
      (Fits (some limit) text →
        ∃ b, (s.writes .finish)[limit - text.length]? = some (.frame, b)) := by
  constructor
  · by_cases hlead : s.lead lastLineEnd = [] ∨ Fits (some limit) (text ++ s.lead lastLineEnd)
    · have hclosing : put LimitedOutput.sink closing
          (.after (some limit) false (text ++ s.lead lastLineEnd) flushes) = _ :=
        put_of_error (LimitedOutput.write_after_of_not_fits closing_ne_nil h)
      simp only [finish, hopen, Bool.false_eq_true, if_false, put_lead_of_fits _ hlead, hclosing]
      rfl
    · simp only [finish, hopen, Bool.false_eq_true, if_false, put_lead_of_not_fits _ hlead]
      rw [LimitedOutput.after_append_of_full (not_or.1 hlead).2]
      rfl
  · intro htext
    have hwrites : s.writes .finish = Piece.frame.mark (s.lead lastLineEnd ++ closing) :=
      if_neg (by rw [hopen]; exact Bool.false_ne_true)
    have hcut : limit < text.length + (s.lead lastLineEnd ++ closing).length := by
      simpa [Nat.add_assoc] using h
    rw [fits_some] at htext
    rw [hwrites]
    exact Piece.frame.exists_getElem?_mark (by omega)

/-- A call that does not fit leaves the stream as it is. The first such call tells of the byte that
is not stored. -/
theorem perform_of_not_fits {call : Call}
    (h : ¬ Fits (some limit) (text ++ (s.writes call).map Prod.snd)) :
    ∃ p : Piece, perform LimitedOutput.sink s (.after (some limit) false text flushes) call =
        (call.refused p.fault, s,
          .after (some limit) false (text ++ (s.writes call).map Prod.snd) flushes) ∧
      (Fits (some limit) text → ∃ b, (s.writes call)[limit - text.length]? = some (p, b)) := by
  rw [map_writes hopen] at h ⊢
  cases call with
  | add rule =>
    rw [whole, ← List.append_assoc] at h ⊢
    obtain ⟨p, hadd, hbyte⟩ := add_of_not_fits flushes hopen rule h
    exact ⟨p, by rw [perform, hadd]; rfl, hbyte⟩
  | finish =>
    rw [whole, ← List.append_assoc] at h ⊢
    obtain ⟨hfinish, hbyte⟩ := finish_of_not_fits flushes hopen h
    exact ⟨.frame, by rw [perform, hfinish]; rfl, hbyte⟩

end

/-! ## Runs -/

/-- What calls answer, and the stream after them, where all that they write is stored. -/
def settleAll (s : RuleStream) : List Call → List Reply × RuleStream
  | [] => ([], s)
  | call :: calls =>
    let more := (s.settle call).2.settleAll calls
    ((s.settle call).1 :: more.1, more.2)

/-- What calls write. -/
def writesAll (s : RuleStream) : List Call → List (Piece × UInt8)
  | [] => []
  | call :: calls => s.writes call ++ (s.settle call).2.writesAll calls

/-- Without a limit all that calls write is stored. -/
theorem run_unlimited (calls : List Call) (s : RuleStream) (text : Bytes) :
    ∃ n, run LimitedOutput.sink s (.after none false text flushes) calls =
      ((s.settleAll calls).1, (s.settleAll calls).2,
        .after none false (text ++ (s.writesAll calls).map Prod.snd) n) := by
  induction calls generalizing s text flushes with
  | nil => exact ⟨flushes, by simp [run, settleAll, writesAll]⟩
  | cons call calls ih =>
    have hfits : Fits none (text ++ (s.writes call).map Prod.snd) := fits_none
    obtain ⟨n, hcall⟩ := perform_of_fits flushes hfits
    obtain ⟨m, hrun⟩ := ih n (s.settle call).2 (text ++ (s.writes call).map Prod.snd)
    refine ⟨m, ?_⟩
    simp only [run, hcall, hrun, settleAll, writesAll, List.map_append, List.append_assoc]

variable {limit : Nat}

theorem Call.failed_refused (call : Call) (e : RuleError) : (call.refused e).failed = true := by
  cases call <;> rfl

theorem Call.fault?_refused (call : Call) (e : RuleError) : (call.refused e).fault? = some e := by
  cases call <;> rfl

theorem fault_of_not_failed {reply : Reply} (h : reply.failed = false) : reply.fault? = none := by
  rcases reply with (e | u) | (e | n)
  all_goals first | rfl | cases h

/-- When the output is full and the list open, all calls fail. -/
theorem run_overfull (calls : List Call) (hopen : s.finished = false)
    (h : ¬ Fits (some limit) text) :
    ∃ replies, run LimitedOutput.sink s (.after (some limit) false text flushes) calls =
        (replies, s, .after (some limit) false text flushes) ∧
      replies.length = calls.length ∧ ∀ reply ∈ replies, reply.failed = true := by
  induction calls with
  | nil => exact ⟨[], rfl, rfl, nofun⟩
  | cons call calls ih =>
    obtain ⟨replies, hrun, hlength, hfailed⟩ := ih
    have hmore : ¬ Fits (some limit) (text ++ (s.writes call).map Prod.snd) :=
      fun hfits => h hfits.of_append
    obtain ⟨p, hcall, -⟩ := perform_of_not_fits flushes hopen hmore
    rw [LimitedOutput.after_append_of_full h] at hcall
    refine ⟨call.refused p.fault :: replies, by simp only [run, hcall, hrun], ?_, ?_⟩
    · rw [List.length_cons, hlength, List.length_cons]
    · exact List.forall_mem_cons.2 ⟨call.failed_refused _, hfailed⟩

/-- What calls behind a text that fits answer. -/
structure CutAt (limit : Nat) (text : Bytes) (s : RuleStream) (calls : List Call)
    (replies : List Reply) : Prop where
  length : replies.length = calls.length
  /-- A call goes well exactly if all that is written up to it fits. -/
  fits : ∀ i reply, replies[i]? = some reply → (reply.failed = false ↔
    Fits (some limit) (text ++ (s.writesAll (calls.take (i + 1))).map Prod.snd))
  /-- The first call that does not tells of the first byte that is not stored. -/
  fault : ∀ p b, (s.writesAll calls)[limit - text.length]? = some (p, b) →
    replies.findSome? Reply.fault? = some p.fault

/-- Calls that go well without a limit. Those that do not fit fail, and the text is cut. -/
theorem run_limited (calls : List Call) (s : RuleStream)
    (h : Fits (some limit) text) (hclean : ∀ reply ∈ (s.settleAll calls).1, reply.failed = false) :
    ∃ replies s' n, run LimitedOutput.sink s (.after (some limit) false text flushes) calls =
        (replies, s', .after (some limit) false (text ++ (s.writesAll calls).map Prod.snd) n) ∧
      CutAt limit text s calls replies := by
  induction calls generalizing s text flushes with
  | nil =>
    refine ⟨[], s, flushes, by simp [run, writesAll], ⟨rfl, nofun, ?_⟩⟩
    intro p b hb
    cases hb
  | cons call calls ih =>
    by_cases hcall : Fits (some limit) (text ++ (s.writes call).map Prod.snd)
    · obtain ⟨hok, hrest⟩ := List.forall_mem_cons.1 hclean
      obtain ⟨n, hperform⟩ := perform_of_fits flushes hcall
      obtain ⟨replies, s', m, hrun, hcut⟩ := ih n (s.settle call).2 hcall hrest
      refine ⟨(s.settle call).1 :: replies, s', m, ?_, ⟨?_, ?_, ?_⟩⟩
      · simp only [run, hperform, hrun, writesAll, List.map_append, List.append_assoc]
      · rw [List.length_cons, hcut.length, List.length_cons]
      · rintro (_ | i) reply hreply
        · obtain rfl : (s.settle call).1 = reply := Option.some.inj hreply
          simpa [writesAll, hok] using hcall
        · rw [hcut.fits i reply hreply, List.take_succ_cons, writesAll, List.map_append,
            List.append_assoc]
      · intro p b hb
        -- the byte that is not stored is none of those that this call writes
        simp only [fits_some, List.length_append, List.length_map] at hcall
        rw [writesAll, List.getElem?_append_right (by omega)] at hb
        rw [List.findSome?_cons, fault_of_not_failed hok]
        refine hcut.fault p b ?_
        rwa [List.length_append, List.length_map, ← Nat.sub_sub]
    · have hopen : s.finished = false := by
        rw [← Bool.not_eq_true]
        intro hfin
        rw [writes_of_finished hfin, List.map_nil, List.append_nil] at hcall
        exact hcall h
      obtain ⟨p, hperform, hbyte⟩ := perform_of_not_fits flushes hopen hcall
      obtain ⟨replies, hrun, hlength, hfailed⟩ := run_overfull flushes calls hopen hcall
      refine ⟨call.refused p.fault :: replies, s, flushes, ?_, ⟨?_, ?_, ?_⟩⟩
      · simp only [run, hperform, hrun, writesAll, List.map_append]
        rw [← List.append_assoc, LimitedOutput.after_append_of_full hcall]
      · rw [List.length_cons, hlength, List.length_cons]
      · intro i reply hreply
        have hfail : reply.failed = true := by
          rcases List.mem_cons.1 (List.mem_of_getElem? hreply) with rfl | hmem
          · exact call.failed_refused _
          · exact hfailed reply hmem
        rw [hfail, List.take_succ_cons, writesAll, List.map_append, ← List.append_assoc]
        exact iff_of_false Bool.noConfusion fun hfits => hcall hfits.of_append
      · intro q c hc
        obtain ⟨b, hb⟩ := hbyte h
        rw [writesAll, List.getElem?_append_left (List.getElem?_eq_some_iff.1 hb).1, hb] at hc
        obtain ⟨rfl, -⟩ := Prod.mk.inj (Option.some.inj hc)
        rw [List.findSome?_cons, call.fault?_refused]

theorem accepted_cons (call : Call) (calls : List Call) (reply : Reply) (replies : List Reply) :
    accepted (call :: calls) (reply :: replies) =
      (accepted? call reply).toList ++ accepted calls replies := by
  cases hc : accepted? call reply <;> simp [accepted, hc]

/-- On any output a stream counts the rules whose addition is answered with success. -/
theorem count_run {ω : Type} {sink : Sink ω} {text : ω → Bytes} (h : sink.StoresPart text)
    (calls : List Call) (s : RuleStream) (w : ω) :
    (run sink s w calls).2.1.count =
      s.count + (accepted calls (run sink s w calls).1).length := by
  induction calls generalizing s w with
  | nil => rfl
  | cons call calls ih =>
    obtain ⟨reply, s₁, w₁, stored, hperform, -, heffect⟩ := perform_effect h s w call
    simp only [run, hperform]
    rw [ih, heffect.count, accepted_cons, List.length_append, Nat.add_assoc]

/-! ## Rules and a closing -/

/-- Rules are added one after the other, and then the list is closed, and closed again. -/
def allAndFinish (rules : List Rule) (again : Nat) : List Call :=
  rules.map .add ++ List.replicate (again + 1) .finish

/-- What an output without a limit holds after the opening and these calls. -/
def unlimitedText (calls : List Call) : Bytes :=
  match begin LimitedOutput.sink (.empty none false) with
  | (.error _, o) => o.stored
  | (.ok s, o) => (run LimitedOutput.sink s o calls).2.2.stored

theorem begin_of_fits {limit : Option Nat} (h : Fits limit opening) :
    begin LimitedOutput.sink (.empty limit false) =
      (.ok ⟨0, false⟩, .after limit false opening 0) := by
  have hwrite : (LimitedOutput.after limit false [] 0).write opening = _ :=
    LimitedOutput.write_after_of_fits h
  rw [begin, LimitedOutput.empty_eq_after, put_of_ok hwrite]
  rfl

theorem begin_of_not_fits (h : ¬ Fits (some limit) opening) :
    begin LimitedOutput.sink (.empty (some limit) false) =
      (.error Piece.frame.fault, .after (some limit) false opening 0) := by
  have hwrite : (LimitedOutput.after (some limit) false [] 0).write opening = _ :=
    LimitedOutput.write_after_of_not_fits (List.cons_ne_nil _ _) h
  rw [begin, LimitedOutput.empty_eq_after, put_of_error hwrite]
  rfl

theorem unlimitedText_eq (calls : List Call) :
    unlimitedText calls = opening ++ (writesAll ⟨0, false⟩ calls).map Prod.snd := by
  obtain ⟨n, hrun⟩ := run_unlimited 0 calls ⟨0, false⟩ opening
  simp only [unlimitedText, begin_of_fits fits_none, hrun]
  rfl

theorem settleAll_closings (s : RuleStream) (n : Nat) :
    ∀ reply ∈ (s.settleAll (List.replicate n .finish)).1, reply.failed = false := by
  induction n generalizing s with
  | zero => nofun
  | succ n ih => exact List.forall_mem_cons.2 ⟨rfl, ih _⟩

theorem settleAll_allAndFinish (hopen : s.finished = false) (rules : List Rule) (again : Nat) :
    ∀ reply ∈ (s.settleAll (allAndFinish rules again)).1, reply.failed = false := by
  induction rules generalizing s with
  | nil => exact s.settleAll_closings (again + 1)
  | cons rule rules ih =>
    have hsettle : s.settle (.add rule) = (.added (.ok ()), { s with count := s.count + 1 }) :=
      if_neg (by rw [hopen]; exact Bool.false_ne_true)
    simp only [allAndFinish, List.map_cons, List.cons_append, settleAll, hsettle]
    exact List.forall_mem_cons.2 ⟨rfl, ih hopen⟩

theorem writesAll_of_finished (hfin : s.finished = true) (n : Nat) :
    s.writesAll (List.replicate n .finish) = [] := by
  induction n generalizing s with
  | zero => rfl
  | succ n ih =>
    rw [List.replicate_succ, writesAll, writes_of_finished hfin, ih rfl, List.append_nil]

/-- Only the first of the closings writes. -/
theorem writesAll_closings (hopen : s.finished = false) (again : Nat) :
    s.writesAll (List.replicate (again + 1) .finish) =
      Piece.frame.mark (s.lead lastLineEnd ++ closing) := by
  rw [List.replicate_succ, writesAll, writesAll_of_finished rfl, List.append_nil, writes,
    if_neg (by rw [hopen]; exact Bool.false_ne_true)]

theorem writesAll_cons (hopen : s.finished = false) (rule : Rule) (rules : List Rule)
    (again : Nat) :
    s.writesAll (allAndFinish (rule :: rules) again) =
      Piece.frame.mark (s.lead separator) ++ Piece.object.mark rule.encode ++
        writesAll ⟨s.count + 1, false⟩ (allAndFinish rules again) := by
  simp only [allAndFinish, List.map_cons, List.cons_append, writesAll, writes, settle, hopen,
    Bool.false_eq_true, if_false]

/-- Behind another rule each rule has a separator in front. -/
theorem writesAll_of_some (count : Nat) (rules : List Rule) (again : Nat) :
    writesAll ⟨count + 1, false⟩ (allAndFinish rules again) =
      (rules.flatMap fun r => Piece.frame.mark separator ++ Piece.object.mark r.encode) ++
        Piece.frame.mark (lastLineEnd ++ closing) := by
  induction rules generalizing count with
  | nil => exact writesAll_closings rfl again
  | cons rule rules ih =>
    rw [writesAll_cons rfl, ih, List.flatMap_cons, List.append_assoc _ _ (Piece.frame.mark _)]
    rfl

theorem opening_writesAll (rules : List Rule) (again : Nat) :
    Piece.frame.mark opening ++ writesAll ⟨0, false⟩ (allAndFinish rules again) =
      labelled rules := by
  rw [labelled, List.append_assoc]
  cases rules with
  | nil => exact congrArg _ (writesAll_closings rfl again)
  | cons rule rules =>
    rw [writesAll_cons rfl, writesAll_of_some, labelledRules]
    simp only [List.append_assoc]
    rfl

/-- On an output with a limit, rules and their closing leave the front of the text that they make
without it. The opening and each call after it go well exactly if the text up to them fits, the
first one that does not tells what the first byte that is not stored belongs to, and the stream
counts the rules whose addition went well. -/
theorem limited_cuts (limit : Nat) (rules : List Rule) (again : Nat) :
    let calls := allAndFinish rules again
    (labelled rules).map Prod.snd = document rules ∧ unlimitedText calls = document rules ∧
      match begin LimitedOutput.sink (.empty (some limit) false) with
      | (.error e, o) =>
        limit < (unlimitedText []).length ∧ o.stored = (unlimitedText calls).take limit ∧
          ∃ b, (labelled rules)[limit]? = some (.frame, b) ∧ e = Piece.frame.fault
      | (.ok s, o) =>
        (unlimitedText []).length ≤ limit ∧
          let r := run LimitedOutput.sink s o calls
          r.2.2.stored = (unlimitedText calls).take limit ∧
            r.1.length = calls.length ∧
            (∀ i reply, r.1[i]? = some reply → (reply.failed = false ↔
              (unlimitedText (calls.take (i + 1))).length ≤ limit)) ∧
            (∀ p b, (labelled rules)[limit]? = some (p, b) →
              r.1.findSome? Reply.fault? = some p.fault) ∧
            r.2.1.count = (accepted calls r.1).length := by
  intro calls
  have htext : unlimitedText calls = document rules := by
    rw [unlimitedText_eq, ← map_labelled, ← opening_writesAll rules again, List.map_append,
      Piece.map_mark]
  refine ⟨map_labelled rules, htext, ?_⟩
  by_cases hopening : Fits (some limit) opening
  · obtain ⟨replies, s', n, hrun, hcut⟩ := run_limited 0 calls ⟨0, false⟩ hopening
      (settleAll_allAndFinish rfl rules again)
    have hcount := count_run LimitedOutput.storesPart calls ⟨0, false⟩
      (.after (some limit) false opening 0)
    rw [hrun] at hcount
    rw [begin_of_fits hopening]
    dsimp only
    rw [hrun]
    refine ⟨?_, ?_, hcut.length, ?_, ?_, ?_⟩
    · rw [unlimitedText_eq]
      simpa [writesAll] using hopening
    · rw [unlimitedText_eq]
      rfl
    · intro i reply hreply
      rw [hcut.fits i reply hreply, unlimitedText_eq, fits_some]
    · intro p b hb
      refine hcut.fault p b ?_
      rw [fits_some] at hopening
      rwa [← opening_writesAll rules again,
        List.getElem?_append_right (by rwa [Piece.length_mark]), Piece.length_mark] at hb
    · rw [hcount, Nat.zero_add]
  · rw [begin_of_not_fits hopening]
    have hlimit : limit < opening.length := by simpa using hopening
    refine ⟨?_, ?_, ?_⟩
    · rw [unlimitedText_eq]
      simpa [writesAll] using hlimit
    · rw [unlimitedText_eq, List.take_append_of_le_length (by omega)]
      rfl
    · obtain ⟨b, hb⟩ := Piece.frame.getElem?_mark_append_left
        (writesAll ⟨0, false⟩ calls) hlimit
      exact ⟨b, by rw [← opening_writesAll rules again, hb], rfl⟩

end RuleStream

end BuildScript
