import BuildScript.Proofs.Files.Faults
import BuildScript.Proofs.Rules.Stream

/-!
# Rules on an output that fails

A call that fails may leave a part of what it writes behind, and the list is as open as before it.
The next call goes on behind that part. Where the part is a line end, that does no harm. All else
makes the text no list of rules any more, and nothing tells that to whoever finishes the list.

* `Opened`: the texts of a list that is open, with line ends where a closing has failed;
* `Effect`, `perform_effect`: what one call can do;
* `Intact.effect`: the text stays as it should be, or a call is torn;
* `finished_reads_back`: what a finished list holds if nothing is stored behind a part of a call;
* `closedTwice_misread`: a closing that was cut and made again.
-/

namespace BuildScript.RuleStream

open Files Json

variable {ω : Type} {sink : Sink ω} {text : ω → Bytes}

/-! ## Texts -/

/-- What a list of these rules may look like before it is closed. -/
inductive Opened : List Rule → Bytes → Prop where
  | opening : Opened [] opening
  | lineEnd {rules : List Rule} {own : Bytes} : Opened rules own → Opened rules (own ++ lastLineEnd)
  | rule {rules : List Rule} {own : Bytes} (rule : Rule) : Opened rules own →
      Opened (rules ++ [rule])
        (own ++ ((if 0 < rules.length then separator else []) ++ rule.encode))

/-- Behind the opening bracket the rules are read, and then whatever follows. -/
theorem Opened.elements {rules : List Rule} {own : Bytes} (h : Opened rules own) :
    ∃ body, own = openList :: body ∧ rules.length ≤ body.length ∧ ∀ fuel rest,
      elements Rule.read (rules.length + (fuel + 1)) true (body ++ rest) =
        (elements Rule.read (fuel + 1) rules.isEmpty rest).map fun more =>
          (rules ++ more.1, more.2) := by
  induction h with
  | opening =>
    refine ⟨[newline], rfl, Nat.zero_le _, ?_⟩
    intro fuel rest
    rw [List.length_nil, Nat.zero_add, List.isEmpty_nil, elements_append blanks_newline]
    cases Json.elements Rule.read (fuel + 1) true rest <;> rfl
  | @lineEnd rules own _ ih =>
    obtain ⟨body, rfl, hlen, hread⟩ := ih
    refine ⟨body ++ [newline], rfl, ?_, ?_⟩
    · rw [List.length_append]
      omega
    · intro fuel rest
      rw [List.append_assoc, hread, elements_append blanks_newline]
  | @rule rules own rule _ ih =>
    obtain ⟨body, rfl, hlen, hread⟩ := ih
    obtain ⟨b, more, hcode, -, -⟩ := Rule.printed_encode.start rule
    refine ⟨body ++ ((if 0 < rules.length then separator else []) ++ rule.encode), rfl, ?_, ?_⟩
    · rw [hcode]
      simp only [List.length_append, List.length_cons, List.length_nil]
      omega
    · intro fuel rest
      -- one round of the reader, with a comma in front of all rules but the first
      have hone : Json.elements Rule.read (fuel + 2) rules.isEmpty
          ((if 0 < rules.length then separator else []) ++ (rule.encode ++ rest)) =
          (Json.elements Rule.read (fuel + 1) false rest).map fun more =>
            (rule :: more.1, more.2) := by
        cases rules with
        | nil =>
          rw [List.isEmpty_nil, Json.elements]
          simp only [List.length_nil, Nat.lt_irrefl, if_false, List.nil_append,
            Rule.printed_encode.nextElement_first, Except.bind, Rule.read_encode]
        | cons first rules =>
          have hcomma := Rule.printed_encode.nextElement_comma blanks_newline rule rest
          rw [List.isEmpty_cons, List.length_cons, if_pos (Nat.succ_pos _), separator_eq,
            Json.elements]
          simp only [List.cons_append, List.nil_append] at hcomma ⊢
          simp only [hcomma, Except.bind, Rule.read_encode]
      have hlength : (rules ++ [rule]).length + (fuel + 1) = rules.length + (fuel + 1 + 1) := by
        rw [List.length_append, List.length_singleton]
        omega
      have hsome : (rules ++ [rule]).isEmpty = false := by simp
      rw [hlength, List.append_assoc, List.append_assoc, hread, hone, hsome]
      cases Json.elements Rule.read (fuel + 1) false rest with
      | error e => rfl
      | ok more => simp [Except.map]

/-- Closing such a list makes it a document that holds the rules. -/
theorem Opened.readRules_close {rules : List Rule} {own : Bytes} (h : Opened rules own) :
    readRules (own ++ ((if 0 < rules.length then lastLineEnd else []) ++ closing)) =
      .ok rules := by
  obtain ⟨body, rfl, hlen, hread⟩ := h.elements
  have hws : Blanks (if 0 < rules.length then lastLineEnd else []) := by
    split
    · exact blanks_newline
    · exact Rule.blanks_nil
  generalize hend : (if 0 < rules.length then lastLineEnd else []) ++ closing = ending
  have hfuel : (body ++ ending).length + 1 =
      rules.length + ((body ++ ending).length - rules.length + 1) := by
    rw [List.length_append]
    omega
  have hlist : list Rule.read (openList :: (body ++ ending)) = .ok (rules, [newline]) := by
    rw [list, skipBlanks_cons (by decide)]
    dsimp only
    rw [if_pos rfl, hfuel, hread, ← hend, closing_eq, elements_close hws]
    simp [Except.map]
  rw [readRules, Json.document, List.cons_append, hlist]
  rfl

/-! ## Calls -/

/-- What stands between the rules that are there and what comes next. -/
def lead (s : RuleStream) (bs : Bytes) : Bytes := if 0 < s.count then bs else []

/-- All that a call writes to a list that is open. -/
def whole (s : RuleStream) : Call → Bytes
  | .add rule => s.lead separator ++ rule.encode
  | .finish => s.lead lastLineEnd ++ closing

def Reply.failed : Reply → Bool
  | .added result => !result.isOk
  | .finished result => !result.isOk

/-- What a call can do: the answer, the stream after it, and what is stored. -/
inductive Effect (s : RuleStream) : Call → Reply → RuleStream → Bytes → Prop where
  | late (rule : Rule) : s.finished = true → Effect s (.add rule) (.added (.error .finished)) s []
  | again (result : Except RuleError Nat) : s.finished = true → (∀ n, result = .ok n → n = s.count) →
      Effect s .finish (.finished result) s []
  | added (rule : Rule) : s.finished = false →
      Effect s (.add rule) (.added (.ok ())) { s with count := s.count + 1 } (s.whole (.add rule))
  | closed (result : Except RuleError Nat) : s.finished = false →
      (∀ n, result = .ok n → n = s.count) →
      Effect s .finish (.finished result) { s with finished := true } (s.whole .finish)
  | part (call : Call) (reply : Reply) (k : Nat) : s.finished = false → reply.failed = true →
      accepted? call reply = none → k < (s.whole call).length →
      Effect s call reply s ((s.whole call).take k)

theorem put_of_ok {bs : Bytes} {w w' : ω} (h : sink.write bs w = (.ok (), w')) :
    put sink bs w = (.ok (), w') := by
  rw [put, h]
  rfl

theorem put_of_error {bs : Bytes} {w w' : ω} {e : IoError}
    (h : sink.write bs w = (.error e, w')) : put sink bs w = (.error (.io e), w') := by
  rw [put, h]
  rfl

theorem put_lead (h : sink.StoresPart text) (s : RuleStream) (bs : Bytes) (w : ω) :
    (∃ w', (if 0 < s.count then put sink bs w else (.ok (), w)) = (.ok (), w') ∧
      text w' = text w ++ s.lead bs) ∨
    ∃ e w' k, (if 0 < s.count then put sink bs w else (.ok (), w)) = (.error e, w') ∧
      k < (s.lead bs).length ∧ text w' = text w ++ (s.lead bs).take k := by
  by_cases hsome : 0 < s.count
  · simp only [lead, if_pos hsome]
    rcases h.write bs w with ⟨w', hwrite, htext⟩ | ⟨e, w', k, hwrite, hk, htext⟩
    · exact .inl ⟨w', put_of_ok hwrite, htext⟩
    · exact .inr ⟨.io e, w', k, put_of_error hwrite, hk, htext⟩
  · simp only [lead, if_neg hsome]
    exact .inl ⟨w, rfl, (List.append_nil _).symm⟩

/-- A list that is closed is only flushed. -/
theorem finish_of_finished (h : sink.StoresPart text) {s : RuleStream} (hfin : s.finished = true)
    (w : ω) : ∃ result w', s.finish sink w = (result, s, w') ∧
      (∀ n, result = .ok n → n = s.count) ∧ text w' = text w := by
  have hkeeps := h.flush w
  have hsame : { s with finished := true } = s := by rw [← hfin]
  rw [finish, if_pos hfin]
  dsimp only
  rw [hsame]
  rcases hflush : sink.flush w with ⟨e | u, w'⟩
  · rw [hflush] at hkeeps
    exact ⟨.error (.io e), w', rfl, by simp, hkeeps⟩
  · rw [hflush] at hkeeps
    refine ⟨.ok s.count, w', rfl, ?_, hkeeps⟩
    intro n hn
    cases hn
    rfl

theorem add_effect (h : sink.StoresPart text) (s : RuleStream) (rule : Rule) (w : ω) :
    ∃ result s' w' stored, s.add sink rule w = (result, s', w') ∧ text w' = text w ++ stored ∧
      Effect s (.add rule) (.added result) s' stored := by
  cases hfin : s.finished with
  | true =>
    exact ⟨_, s, w, [], add_of_finished hfin rule w, (List.append_nil _).symm, .late rule hfin⟩
  | false =>
    have hlen : (s.whole (.add rule)).length = (s.lead separator).length + rule.encode.length :=
      List.length_append
    rw [add, if_neg (by rw [hfin]; exact Bool.false_ne_true)]
    rcases put_lead h s separator w with ⟨w₁, hput, htext₁⟩ | ⟨e, w₁, k, hput, hk, htext₁⟩
    · rw [hput]
      rcases h.write rule.encode w₁ with ⟨w₂, hwrite, htext₂⟩ | ⟨e, w₂, k, hwrite, hk, htext₂⟩
      · refine ⟨.ok (), _, w₂, s.whole (.add rule), by simp only [hwrite], ?_, .added rule hfin⟩
        rw [htext₂, htext₁, whole, List.append_assoc]
      · refine ⟨.error (.encode e), s, w₂,
          (s.whole (.add rule)).take ((s.lead separator).length + k), by simp only [hwrite], ?_,
          .part _ _ _ hfin rfl rfl (by omega)⟩
        rw [htext₂, htext₁, whole, List.take_length_add_append, List.append_assoc]
    · refine ⟨.error e, s, w₁, (s.whole (.add rule)).take k, by rw [hput], ?_,
        .part _ _ k hfin rfl rfl (by omega)⟩
      rw [htext₁, whole, List.take_append_of_le_length (by omega)]

theorem finish_effect (h : sink.StoresPart text) (s : RuleStream) (w : ω) :
    ∃ result s' w' stored, s.finish sink w = (result, s', w') ∧ text w' = text w ++ stored ∧
      Effect s .finish (.finished result) s' stored := by
  cases hfin : s.finished with
  | true =>
    obtain ⟨result, w', hflush, hcount, htext⟩ := finish_of_finished h hfin w
    exact ⟨result, s, w', [], hflush, by rw [htext, List.append_nil], .again result hfin hcount⟩
  | false =>
    have hlen : (s.whole .finish).length = (s.lead lastLineEnd).length + closing.length :=
      List.length_append
    rcases put_lead h s lastLineEnd w with ⟨w₁, hput, htext₁⟩ | ⟨e, w₁, k, hput, hk, htext₁⟩
    · rcases h.write closing w₁ with ⟨w₂, hwrite, htext₂⟩ | ⟨e, w₂, k, hwrite, hk, htext₂⟩
      · -- what is left to do is what a closed list does
        have hclosing := put_of_ok hwrite
        have hrest : s.finish sink w = finish { s with finished := true } sink w₂ := by
          simp only [finish, hfin, Bool.false_eq_true, if_false, if_true, hput, hclosing]
        obtain ⟨result, w₃, hflush, hcount, htext₃⟩ :=
          finish_of_finished (s := { s with finished := true }) h rfl w₂
        refine ⟨result, _, w₃, s.whole .finish, by rw [hrest, hflush], ?_,
          .closed result hfin hcount⟩
        rw [htext₃, htext₂, htext₁, whole, List.append_assoc]
      · refine ⟨.error (.io e), s, w₂,
          (s.whole .finish).take ((s.lead lastLineEnd).length + k), ?_, ?_,
          .part _ _ _ hfin rfl rfl (by omega)⟩
        · have hclosing := put_of_error hwrite
          simp only [finish, hfin, Bool.false_eq_true, if_false, hput, hclosing]
        · rw [htext₂, htext₁, whole, List.take_length_add_append, List.append_assoc]
    · refine ⟨.error e, s, w₁, (s.whole .finish).take k, ?_, ?_,
        .part _ _ k hfin rfl rfl (by omega)⟩
      · simp only [finish, hfin, Bool.false_eq_true, if_false, hput]
      · rw [htext₁, whole, List.take_append_of_le_length (by omega)]

theorem perform_effect (h : sink.StoresPart text) (s : RuleStream) (w : ω) (call : Call) :
    ∃ reply s' w' stored, perform sink s w call = (reply, s', w') ∧
      text w' = text w ++ stored ∧ Effect s call reply s' stored := by
  cases call with
  | add rule =>
    obtain ⟨result, s', w', stored, hadd, htext, heffect⟩ := add_effect h s rule w
    exact ⟨_, s', w', stored, by rw [perform, hadd], htext, heffect⟩
  | finish =>
    obtain ⟨result, s', w', stored, hfinish, htext, heffect⟩ := finish_effect h s w
    exact ⟨_, s', w', stored, by rw [perform, hfinish], htext, heffect⟩

namespace Effect

variable {s s' : RuleStream} {call : Call} {reply : Reply} {stored : Bytes}

theorem count (h : Effect s call reply s' stored) :
    s'.count = s.count + (accepted? call reply).toList.length := by
  cases h with
  | late | again | added | closed => rfl
  | part _ _ k _ _ hnone => rw [hnone]; rfl

/-- A list is closed only by writing. -/
theorem stays_open (h : Effect s call reply s' stored) (hsilent : stored = [])
    (hopen : s.finished = false) : s'.finished = false := by
  cases h with
  | late | again | added | part => exact hopen
  | closed result _ _ => exact absurd (List.append_eq_nil_iff.1 hsilent).2 (List.cons_ne_nil _ _)

theorem of_ok {n : Nat} (h : Effect s call (.finished (.ok n)) s' stored) :
    s'.finished = true ∧ n = s'.count := by
  cases h with
  | again _ hfin hcount => exact ⟨hfin, hcount n rfl⟩
  | closed _ _ hcount => exact ⟨rfl, hcount n rfl⟩
  | part _ _ _ _ hfailed => cases hfailed

end Effect

/-! ## Torn calls -/

/-- A call, its answer, whether the list was closed then, and what was stored meanwhile. -/
structure Turn where
  call : Call
  reply : Reply
  closed : Bool
  stored : Bytes

/-- A part of what the call had to write is left behind, and it is more than a line end. -/
def Turn.Torn (t : Turn) : Prop :=
  t.reply.failed = true ∧ t.closed = false ∧ ∃ b ∈ t.stored, b ≠ newline

instance (t : Turn) : Decidable t.Torn := inferInstanceAs (Decidable (_ ∧ _))

/-- The stream, and what has become of an output that held `base` when the list was opened. -/
structure Intact (text : ω → Bytes) (base : Bytes) (rules : List Rule) (s : RuleStream) (w : ω) :
    Prop where
  count : s.count = rules.length
  text : ∃ own, text w = base ++ own ∧
    if s.finished then readRules own = .ok rules else Opened rules own

theorem whole_add (s : RuleStream) (rule : Rule) :
    ∃ b more, s.whole (.add rule) = b :: more ∧ b ≠ newline := by
  rw [whole, lead]
  split
  · exact ⟨commaByte, _, rfl, by decide⟩
  · exact ⟨openObject, _, rfl, by decide⟩

/-- A part of a closing is a line end at most, or it holds the bracket. -/
theorem take_whole_finish (s : RuleStream) {k : Nat} (hk : k < (s.whole .finish).length) :
    (s.whole .finish).take k = [] ∨ (s.whole .finish).take k = lastLineEnd ∨
      closeList ∈ (s.whole .finish).take k := by
  rw [whole, lead] at hk ⊢
  by_cases hsome : 0 < s.count
  · rw [if_pos hsome] at hk ⊢
    rcases k with _ | _ | _ | k
    · exact .inl rfl
    · exact .inr (.inl rfl)
    · exact .inr (.inr (by decide))
    · rw [lastLineEnd_eq, closing_eq] at hk
      simp only [List.length_append, List.length_cons, List.length_nil] at hk
      omega
  · rw [if_neg hsome] at hk ⊢
    rcases k with _ | _ | k
    · exact .inl rfl
    · exact .inr (.inr (by decide))
    · rw [closing_eq] at hk
      simp only [List.length_append, List.length_cons, List.length_nil] at hk
      omega

/-- The text stays as it should be, or the call is torn. -/
theorem Intact.effect {base : Bytes} {rules : List Rule} {s s' : RuleStream} {w w' : ω}
    {call : Call} {reply : Reply} {stored : Bytes} (hs : Intact text base rules s w)
    (h : Effect s call reply s' stored) (htext : text w' = text w ++ stored) :
    Intact text base (rules ++ (accepted? call reply).toList) s' w' ∨
      (⟨call, reply, s'.finished, stored⟩ : Turn).Torn := by
  have hcount : s'.count = (rules ++ (accepted? call reply).toList).length := by
    rw [h.count, hs.count, List.length_append]
  obtain ⟨own, hown, hform⟩ := hs.text
  rw [hown, List.append_assoc] at htext
  cases h with
  | late | again =>
    refine .inl ⟨hcount, own, by rw [htext, List.append_nil], ?_⟩
    simpa [accepted?] using hform
  | added rule hopen =>
    refine .inl ⟨hcount, _, htext, ?_⟩
    have hopened : Opened rules own := by simpa [hopen] using hform
    have hrule := hopened.rule rule
    rw [← hs.count] at hrule
    simpa [hopen, accepted?, whole, lead] using hrule
  | closed result hopen _ =>
    refine .inl ⟨hcount, _, htext, ?_⟩
    have hopened : Opened rules own := by simpa [hopen] using hform
    have hread := hopened.readRules_close
    rw [← hs.count] at hread
    simpa [accepted?, whole, lead] using hread
  | part _ _ k hopen hfailed hnone hk =>
    have hopened : Opened rules own := by simpa [hopen] using hform
    have hkeep : ∀ own', text w' = base ++ own' → Opened rules own' →
        Intact text base (rules ++ (accepted? call reply).toList) s w' := by
      intro own' hown' hopened'
      exact ⟨hcount, own', hown', by simpa [hopen, hnone] using hopened'⟩
    cases call with
    | add rule =>
      obtain ⟨b, more, hwhole, hb⟩ := s.whole_add rule
      rw [hwhole] at htext ⊢
      cases k with
      | zero => exact .inl (hkeep own (by rw [htext, List.take_zero, List.append_nil]) hopened)
      | succ k => exact .inr ⟨hfailed, hopen, b, List.mem_cons_self, hb⟩
    | finish =>
      rcases s.take_whole_finish hk with hnil | hline | hclose
      · exact .inl (hkeep own (by rw [htext, hnil, List.append_nil]) hopened)
      · exact .inl (hkeep _ (by rw [htext, hline]) hopened.lineEnd)
      · exact .inr ⟨hfailed, hopen, closeList, hclose, by decide⟩

/-! ## Runs -/

/-- Calls one after the other. -/
def turns (sink : Sink ω) (text : ω → Bytes) (s : RuleStream) (w : ω) :
    List Call → List Turn × RuleStream × ω
  | [] => ([], s, w)
  | call :: calls =>
    let r := perform sink s w call
    let more := turns sink text r.2.1 r.2.2 calls
    (⟨call, r.1, r.2.1.finished, (text r.2.2).drop (text w).length⟩ :: more.1, more.2)

/-- The rules whose addition was answered with success. -/
def made (ts : List Turn) : List Rule := ts.filterMap fun t => accepted? t.call t.reply

theorem turns_cons (h : sink.StoresPart text) (s : RuleStream) (w : ω) (call : Call)
    (calls : List Call) :
    ∃ reply s₁ w₁ stored, text w₁ = text w ++ stored ∧ Effect s call reply s₁ stored ∧
      turns sink text s w (call :: calls) =
        (⟨call, reply, s₁.finished, stored⟩ :: (turns sink text s₁ w₁ calls).1,
          (turns sink text s₁ w₁ calls).2) := by
  obtain ⟨reply, s₁, w₁, stored, hperform, htext, heffect⟩ := perform_effect h s w call
  refine ⟨reply, s₁, w₁, stored, htext, heffect, ?_⟩
  simp only [turns, hperform, htext, List.drop_left]

theorem made_cons (t : Turn) (ts : List Turn) :
    made (t :: ts) = (accepted? t.call t.reply).toList ++ made ts := by
  cases ht : accepted? t.call t.reply <;> simp [made, ht]

theorem turns_count (h : sink.StoresPart text) (calls : List Call) (s : RuleStream) (w : ω) :
    (turns sink text s w calls).2.1.count =
      s.count + (made (turns sink text s w calls).1).length := by
  induction calls generalizing s w with
  | nil => rfl
  | cons call calls ih =>
    obtain ⟨reply, s₁, w₁, stored, -, heffect, hturns⟩ := turns_cons h s w call calls
    rw [hturns, made_cons, List.length_append]
    dsimp only
    rw [ih, heffect.count, Nat.add_assoc]

theorem turns_stays_open (h : sink.StoresPart text) (calls : List Call) {s : RuleStream} (w : ω)
    (hopen : s.finished = false)
    (hsilent : ∀ t ∈ (turns sink text s w calls).1, t.stored = []) :
    (turns sink text s w calls).2.1.finished = false := by
  induction calls generalizing s w with
  | nil => exact hopen
  | cons call calls ih =>
    obtain ⟨reply, s₁, w₁, stored, -, heffect, hturns⟩ := turns_cons h s w call calls
    rw [hturns] at hsilent ⊢
    have hnone : stored = [] := hsilent _ List.mem_cons_self
    apply ih w₁ (heffect.stays_open hnone hopen)
    intro t ht
    exact hsilent t (List.mem_cons_of_mem _ ht)

/-- An answer that the list is finished is right about the count. -/
theorem turns_last (h : sink.StoresPart text) (calls : List Call) (s : RuleStream) (w : ω)
    {last : Turn} (hlast : (turns sink text s w calls).1.getLast? = some last) {n : Nat}
    (hok : last.reply = .finished (.ok n)) :
    (turns sink text s w calls).2.1.finished = true ∧
      n = (turns sink text s w calls).2.1.count := by
  induction calls generalizing s w with
  | nil => cases hlast
  | cons call calls ih =>
    obtain ⟨reply, s₁, w₁, stored, -, heffect, hturns⟩ := turns_cons h s w call calls
    rw [hturns] at hlast ⊢
    cases calls with
    | nil =>
      obtain rfl : (⟨call, reply, s₁.finished, stored⟩ : Turn) = last := by
        simpa [turns] using hlast
      dsimp only at hok
      rw [hok] at heffect
      exact heffect.of_ok
    | cons next calls =>
      apply ih s₁ w₁
      obtain ⟨_, _, _, _, -, -, hmore⟩ := turns_cons h s₁ w₁ next calls
      rw [hmore] at hlast ⊢
      rwa [List.getLast?_cons_cons] at hlast

/-- If nothing is stored behind a torn call, a list that is closed was never torn. -/
theorem Intact.turns (h : sink.StoresPart text) {base : Bytes} (calls : List Call)
    {rules : List Rule} {s : RuleStream} {w : ω} (hs : Intact text base rules s w)
    (settled : (turns sink text s w calls).1.Pairwise fun t u => t.Torn → u.stored = [])
    (hclosed : (turns sink text s w calls).2.1.finished = true) :
    Intact text base (rules ++ made (turns sink text s w calls).1)
      (turns sink text s w calls).2.1 (turns sink text s w calls).2.2 := by
  induction calls generalizing rules s w with
  | nil => simpa [made, RuleStream.turns] using hs
  | cons call calls ih =>
    obtain ⟨reply, s₁, w₁, stored, htext, heffect, hturns⟩ := turns_cons h s w call calls
    rw [hturns] at settled hclosed ⊢
    obtain ⟨hfirst, hrest⟩ := List.pairwise_cons.1 settled
    rw [made_cons, ← List.append_assoc]
    rcases hs.effect heffect htext with hs₁ | htorn
    · exact ih hs₁ hrest hclosed
    · have hsilent := turns_stays_open h calls w₁ htorn.2.1 fun t ht => hfirst t ht htorn
      dsimp only at hclosed
      rw [hsilent] at hclosed
      cases hclosed

theorem begin_intact (h : sink.StoresPart text) {w w₀ : ω} {s₀ : RuleStream}
    (hbegin : begin sink w = (.ok s₀, w₀)) :
    s₀.count = 0 ∧ Intact text (text w) [] s₀ w₀ := by
  rw [begin, put] at hbegin
  rcases h.write opening w with ⟨w', hwrite, htext⟩ | ⟨e, w', k, hwrite, -, -⟩
  · rw [hwrite] at hbegin
    cases hbegin
    exact ⟨rfl, rfl, opening, htext, .opening⟩
  · rw [hwrite] at hbegin
    cases hbegin

/-- Whenever a list is reported as finished, the count is that of the rules whose addition was
answered with success. If nothing was stored behind a torn call, the text holds these rules. -/
theorem finished_reads_back (h : sink.StoresPart text) {w w₀ w' : ω} {s₀ s' : RuleStream}
    (hbegin : begin sink w = (.ok s₀, w₀)) {calls : List Call} {ts : List Turn}
    (hturns : turns sink text s₀ w₀ calls = (ts, s', w')) {last : Turn}
    (hlast : ts.getLast? = some last) {n : Nat} (hok : last.reply = .finished (.ok n)) :
    n = (made ts).length ∧
      ((ts.Pairwise fun t u => t.Torn → u.stored = []) →
        ∃ own, text w' = text w ++ own ∧ readRules own = .ok (made ts)) := by
  obtain ⟨hzero, hs₀⟩ := begin_intact h hbegin
  have hcount := turns_count h calls s₀ w₀
  have hends := turns_last h calls s₀ w₀ (by rw [hturns]; exact hlast) hok
  have hkeeps := hs₀.turns h calls
  rw [hturns] at hcount hends hkeeps
  obtain ⟨hclosed, hn⟩ := hends
  refine ⟨by rw [hn, hcount, hzero, Nat.zero_add], ?_⟩
  intro settled
  obtain ⟨own, hown, hform⟩ := (hkeeps settled hclosed).text
  rw [if_pos hclosed] at hform
  exact ⟨own, hown, hform⟩

def copyRule : Rule := ⟨["a"], ["cp", "a", "b"], ["b"]⟩

/-- The first addition stores nothing. The first closing stores a line end only, and then another
rule follows. -/
def patchedCalls : List Call := [.add Rule.empty, .add copyRule, .finish, .add Rule.empty, .finish]

def patchedFaults : FaultyOutput := ⟨[none, some 0, none, none, some 0], []⟩

def patched : List Turn × RuleStream × FaultyOutput :=
  turns FaultyOutput.sink FaultyOutput.stored ⟨0, false⟩
    (begin FaultyOutput.sink patchedFaults).2 patchedCalls

theorem patched_settled : patched.1.Pairwise fun t u => t.Torn → u.stored = [] := by
  decide

theorem patched_last : ∃ last, patched.1.getLast? = some last ∧ last.reply = .finished (.ok 2) :=
  ⟨_, rfl, rfl⟩

theorem finished_reads_back_patched :
    2 = (made patched.1).length ∧ made patched.1 = [copyRule, Rule.empty] ∧
    ∃ own, patched.2.2.stored = own ∧ readRules own = .ok (made patched.1) := by
  obtain ⟨last, hlast, hok⟩ := patched_last
  have hbegin : begin FaultyOutput.sink patchedFaults =
      (.ok ⟨0, false⟩, (begin FaultyOutput.sink patchedFaults).2) := rfl
  have hturns : patched = (patched.1, patched.2.1, patched.2.2) := rfl
  obtain ⟨hcount, hreads⟩ :=
    finished_reads_back FaultyOutput.storesPart hbegin hturns hlast hok
  exact ⟨hcount, rfl, hreads patched_settled⟩

/-! ## A closing that is made again -/

/-- The closing bracket is stored without its line end, and the list is finished again. -/
def closedTwice : List Turn × RuleStream × FaultyOutput :=
  turns FaultyOutput.sink FaultyOutput.stored ⟨0, false⟩
    (begin FaultyOutput.sink ⟨[none, some 1], []⟩).2 [.finish, .finish]

/-- The list is reported as finished, and has two closing brackets. -/
theorem closedTwice_misread :
    closedTwice.1.map Turn.reply = [.finished (.error (.io .writerFull)), .finished (.ok 0)] ∧
    made closedTwice.1 = [] ∧ closedTwice.2.2.stored = Bytes.ofAscii "[\n]]\n" ∧
    readRules closedTwice.2.2.stored = .error .malformed := by
  refine ⟨rfl, ?_, ?_, ?_⟩
  · rfl
  · rfl
  · rfl

end BuildScript.RuleStream
