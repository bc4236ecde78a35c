import BuildScript.Deps.Sender
import BuildScript.Proofs.Deps.Streaming
import BuildScript.Proofs.Files.Faults

/-!
# Records on an output that fails

A record is sent with two writes, and a sender goes on after a failure. A send that fails may leave
a part of its record behind. There is nothing but lengths to tell where a record ends, so whatever
is stored behind that part is read as if it belonged to it.

* `send_cases`: what one send can do to an output;
* `sendAll_stores`, `text_sendAll`: what is stored of every record of a list;
* `decodes_last`: a part of a record at the end of a stream is told from records;
* `stored_untorn`, `fromTorn_cases`: what was sent before a part was left behind, and after it;
* `sends_read_back`: the records before that part are read back, and so are all if nothing is
  stored behind it;
* `bareHeader_misread`: a header without its name, and a record behind it.
-/

namespace BuildScript.Deps

open Files

variable {ω : Type} {sink : Sink ω} {text : ω → Bytes}

/-! ## Single records -/

/-- A record is stored, or the send fails and only a part of the record is stored. -/
theorem send_cases (h : sink.StoresPart text) (r : Record) (w : ω) :
    (∃ w', (Sender.toSink sink).send r w = (.ok (), w') ∧ text w' = text w ++ r.encode) ∨
    ∃ e w' k, (Sender.toSink sink).send r w = (.error e, w') ∧ k < r.encode.length ∧
      text w' = text w ++ r.encode.take k := by
  have hlen : r.encode.length = r.header.length + r.wireName.length := List.length_append
  rcases h.write r.header w with ⟨w₁, hheader, htext₁⟩ | ⟨e, w₁, k, hheader, hk, htext₁⟩
  · rcases h.write r.wireName w₁ with ⟨w₂, hname, htext₂⟩ | ⟨e, w₂, k, hname, hk, htext₂⟩
    · refine .inl ⟨w₂, ?_, ?_⟩
      · simp [Sender.send, Sender.toSink, Sink.writeAll, hheader, hname]
      · rw [htext₂, htext₁, Record.encode, List.append_assoc]
    · refine .inr ⟨e, w₂, r.header.length + k, ?_, by omega, ?_⟩
      · simp [Sender.send, Sender.toSink, Sink.writeAll, hheader, hname]
      · rw [htext₂, htext₁, Record.encode, List.take_length_add_append, List.append_assoc]
  · refine .inr ⟨e, w₁, k, ?_, by omega, ?_⟩
    · simp [Sender.send, Sender.toSink, Sink.writeAll, hheader]
    · rw [htext₁, Record.encode, List.take_append_of_le_length (by omega)]

/-! ## Lists of records -/

/-- A record that was sent, what the sender said, and what was stored meanwhile. -/
structure Sent where
  record : Record
  result : Except IoError Unit
  stored : Bytes

namespace Sent

def Stores (x : Sent) : Prop :=
  match x.result with
  | .ok _ => x.stored = x.record.encode
  | .error _ => ∃ k < x.record.encode.length, x.stored = x.record.encode.take k

/-- A part of the record is left behind. -/
def Torn (x : Sent) : Prop := x.result.isOk = false ∧ x.stored ≠ []

instance (x : Sent) : Decidable x.Torn := inferInstanceAs (Decidable (_ ∧ _))

theorem Stores.ne_nil {x : Sent} (h : x.Stores) (hok : x.result.isOk = true) : x.stored ≠ [] := by
  obtain ⟨r, _ | _, stored⟩ := x
  · cases hok
  · have hstored : stored = r.encode := h
    have hlen := r.encode_length
    rw [Record.encodedLength, headerLength] at hlen
    intro hnil
    have hzero : stored = [] := hnil
    rw [← hstored, hzero, List.length_nil] at hlen
    omega

end Sent

/-- Records sent one after the other. -/
def sendAll (sink : Sink ω) (text : ω → Bytes) : List Record → ω → List Sent × ω
  | [], w => ([], w)
  | r :: records, w =>
    let sent := (Sender.toSink sink).send r w
    let more := sendAll sink text records sent.2
    (⟨r, sent.1, (text sent.2).drop (text w).length⟩ :: more.1, more.2)

/-- The records whose sender said that they were sent. -/
def accepted (sent : List Sent) : List Record :=
  (sent.filter fun x => x.result.isOk).map Sent.record

theorem sendAll_stores (h : sink.StoresPart text) (records : List Record) (w : ω) :
    ∀ x ∈ (sendAll sink text records w).1, x.Stores := by
  induction records generalizing w with
  | nil =>
    intro x hx
    cases hx
  | cons r records ih =>
    intro x hx
    rcases List.mem_cons.1 hx with rfl | hx
    · rcases send_cases h r w with ⟨w', hsend, htext⟩ | ⟨e, w', k, hsend, hk, htext⟩
      · simp [Sent.Stores, hsend, htext]
      · simp only [Sent.Stores, hsend, htext, List.drop_left]
        exact ⟨k, hk, rfl⟩
    · exact ih _ x hx

theorem text_sendAll (h : sink.StoresPart text) (records : List Record) (w : ω) :
    text (sendAll sink text records w).2 =
      text w ++ (sendAll sink text records w).1.flatMap Sent.stored := by
  induction records generalizing w with
  | nil => exact (List.append_nil _).symm
  | cons r records ih =>
    have hgrows : text ((Sender.toSink sink).send r w).2 =
        text w ++ (text ((Sender.toSink sink).send r w).2).drop (text w).length := by
      rcases send_cases h r w with ⟨w', hsend, htext⟩ | ⟨e, w', k, hsend, -, htext⟩
      · rw [hsend, htext, List.drop_left]
      · rw [hsend, htext, List.drop_left]
    rw [sendAll]
    dsimp only
    rw [ih, List.flatMap_cons, ← List.append_assoc, ← hgrows]

/-- What was sent before a part of a record was left behind. -/
def untorn (sent : List Sent) : List Sent := sent.takeWhile fun x => !decide x.Torn

/-- The send that left a part behind, and what was sent after it. -/
def fromTorn (sent : List Sent) : List Sent := sent.dropWhile fun x => !decide x.Torn

theorem untorn_append_fromTorn (sent : List Sent) : untorn sent ++ fromTorn sent = sent :=
  List.takeWhile_append_dropWhile

theorem stored_of_untorn {sent : List Sent} (hstores : ∀ x ∈ sent, x.Stores)
    (hwhole : ∀ x ∈ sent, ¬ x.Torn) :
    sent.flatMap Sent.stored = (accepted sent).flatMap Record.encode := by
  induction sent with
  | nil => rfl
  | cons x sent ih =>
    have hmore : sent.flatMap Sent.stored = (accepted sent).flatMap Record.encode :=
      ih (fun y hy => hstores y (List.mem_cons_of_mem x hy))
        (fun y hy => hwhole y (List.mem_cons_of_mem x hy))
    have hown := hstores x List.mem_cons_self
    cases hresult : x.result with
    | ok u =>
      have hstored : x.stored = x.record.encode := by simpa [Sent.Stores, hresult] using hown
      simp [accepted, hresult, Except.isOk, Except.toBool, hstored, hmore]
    | error e =>
      have hnone : x.stored = [] := by
        by_contra hsome
        exact hwhole x List.mem_cons_self ⟨by rw [hresult]; rfl, hsome⟩
      simp [accepted, hresult, Except.isOk, Except.toBool, hnone, hmore]

theorem accepted_append (before after : List Sent) :
    accepted (before ++ after) = accepted before ++ accepted after := by
  rw [accepted, List.filter_append, List.map_append]
  rfl

/-- Nothing is accepted where nothing is stored. -/
theorem accepted_of_silent {sent : List Sent} (hstores : ∀ x ∈ sent, x.Stores)
    (hsilent : ∀ x ∈ sent, x.stored = []) : accepted sent = [] := by
  have hnone : sent.filter (fun x => x.result.isOk) = [] := by
    rw [List.filter_eq_nil_iff]
    intro x hx hok
    exact (hstores x hx).ne_nil hok (hsilent x hx)
  rw [accepted, hnone, List.map_nil]

theorem stored_untorn {sent : List Sent} (hstores : ∀ x ∈ sent, x.Stores) :
    sent.flatMap Sent.stored =
      (accepted (untorn sent)).flatMap Record.encode ++ (fromTorn sent).flatMap Sent.stored := by
  have hbefore : (untorn sent).flatMap Sent.stored =
      (accepted (untorn sent)).flatMap Record.encode := by
    apply stored_of_untorn
    · intro x hx
      exact hstores x ((List.takeWhile_prefix _).subset hx)
    · intro x hx
      have hall := List.all_eq_true.1 (List.all_takeWhile (l := sent)) x hx
      simpa using hall
  rw [← hbefore, ← List.flatMap_append, untorn_append_fromTorn]

/-- If nothing is stored behind a part of a record, then what is stored from there on is this part,
and nothing was accepted. -/
theorem fromTorn_cases {sent : List Sent} (hstores : ∀ x ∈ sent, x.Stores)
    (last : sent.Pairwise fun x y => x.Torn → y.stored = []) :
    accepted (untorn sent) = accepted sent ∧
      ((fromTorn sent).flatMap Sent.stored = [] ∨ ∃ r : Record, ∃ k < r.encode.length, 0 < k ∧
        (fromTorn sent).flatMap Sent.stored = r.encode.take k) := by
  have hsplit := untorn_append_fromTorn sent
  cases hafter : fromTorn sent with
  | nil =>
    rw [hafter, List.append_nil] at hsplit
    exact ⟨by rw [hsplit], .inl rfl⟩
  | cons x after =>
    have htorn : x.Torn := by
      have hhead := List.head?_dropWhile_not (fun x : Sent => !decide x.Torn) sent
      rw [← fromTorn, hafter] at hhead
      simpa using hhead
    rw [hafter] at hsplit
    have hstored : ∀ y ∈ x :: after, y.Stores := by
      intro y hy
      apply hstores
      rw [← hsplit]
      exact List.mem_append_right _ hy
    -- only `x` has stored anything there, and it failed
    have hsilent : ∀ y ∈ after, y.stored = [] := by
      intro y hy
      rw [← hsplit, List.pairwise_append, List.pairwise_cons] at last
      exact last.2.1.1 y hy htorn
    obtain ⟨e, hresult⟩ : ∃ e, x.result = .error e := by
      cases hresult : x.result with
      | ok u =>
        have hfailed := htorn.1
        rw [hresult] at hfailed
        cases hfailed
      | error e => exact ⟨e, rfl⟩
    obtain ⟨k, hk, hpart⟩ : ∃ k < x.record.encode.length, x.stored = x.record.encode.take k := by
      simpa [Sent.Stores, hresult] using hstored x List.mem_cons_self
    have hrefused : accepted (x :: after) = [] := by
      have hmore := accepted_of_silent (fun y hy => hstored y (List.mem_cons_of_mem x hy)) hsilent
      simpa [accepted, hresult, Except.isOk, Except.toBool] using hmore
    have hall : accepted sent = accepted (untorn sent) ++ accepted (x :: after) := by
      rw [← accepted_append, hsplit]
    rw [hrefused, List.append_nil] at hall
    refine ⟨hall.symm, .inr ⟨x.record, k, hk, ?_, ?_⟩⟩
    · rw [Nat.pos_iff_ne_zero]
      rintro rfl
      exact htorn.2 hpart
    · rw [List.flatMap_cons, List.flatMap_eq_nil_iff.2 hsilent, List.append_nil, hpart]

/-! ## Reading them -/

/-- Behind the last record of a stream, a part of one is told as such, and then comes the end. -/
theorem decodes_last {source : Source} {r : Record} {k : Nat} (hk : k < r.encode.length)
    (hpos : 0 < k) (h : Delivers source (r.encode.take k)) (more : Nat) :
    ∃ needed, readRecords (1 + more) source =
      .error (.truncated needed k) :: List.replicate more (.ok none) := by
  obtain ⟨needed, -, hdecode⟩ := decode_take hk
  obtain ⟨rest, hrest, hread⟩ := readRecord_delivers h
  rw [drop_taken_of_error hdecode] at hrest
  have hne : (r.encode.take k).isEmpty = false := by
    cases htake : r.encode.take k with
    | nil =>
      have := congrArg List.length htake
      rw [List.length_take, List.length_nil] at this
      omega
    | cons b bs => rfl
  refine ⟨needed, ?_⟩
  rw [Nat.add_comm, readRecords, hread, hne, hdecode, readRecords_ended hrest]
  rfl

/-- The records that were accepted before a part of one was left behind are read back, in order,
whatever is stored after them. If nothing is stored behind that part, these are all that were
accepted, and one part of a record is behind them at most. -/
theorem sends_read_back (h : sink.StoresPart text) (records : List Record) {w w' : ω}
    {sent : List Sent} (hsent : sendAll sink text records w = (sent, w')) :
    ∃ tail, text w' = text w ++ ((accepted (untorn sent)).flatMap Record.encode ++ tail) ∧
      ∀ source, Delivers source ((accepted (untorn sent)).flatMap Record.encode ++ tail) →
        ∃ rest, Delivers rest tail ∧
          (∀ more, readRecords ((accepted (untorn sent)).length + more) source =
            (accepted (untorn sent)).map (fun r => .ok (some r.delivered)) ++
              readRecords more rest) ∧
          ((sent.Pairwise fun x y => x.Torn → y.stored = []) →
            accepted (untorn sent) = accepted sent ∧
            ∀ more, ∃ ending,
              readRecords (1 + more) rest = ending :: List.replicate more (.ok none) ∧
              (ending = .ok none ∨ ∃ needed, ending = .error (.truncated needed tail.length))) := by
  have hstores := sendAll_stores h records w
  have htext := text_sendAll h records w
  rw [hsent] at hstores htext
  refine ⟨(fromTorn sent).flatMap Sent.stored, by rw [htext, stored_untorn hstores], ?_⟩
  intro source hsource
  obtain ⟨rest, hrest, hread⟩ := readRecords_append hsource
  refine ⟨rest, hrest, hread, ?_⟩
  intro last
  obtain ⟨hall, htail⟩ := fromTorn_cases hstores last
  refine ⟨hall, ?_⟩
  intro more
  rcases htail with hnil | ⟨r, k, hk, hpos, hpart⟩
  · rw [hnil] at hrest
    refine ⟨.ok none, ?_, .inl rfl⟩
    rw [readRecords_ended hrest, Nat.add_comm, List.replicate_succ]
  · rw [hpart] at hrest ⊢
    obtain ⟨needed, hending⟩ := decodes_last hk hpos hrest more
    have hlen : (r.encode.take k).length = k := by
      rw [List.length_take]
      omega
    exact ⟨_, hending, .inr ⟨needed, by rw [hlen]⟩⟩

/-- The first header is refused, and the last name is cut in two. -/
def twoFaults : List Sent × FaultyOutput :=
  sendAll FaultyOutput.sink FaultyOutput.stored
    [.input [0x61], .product [0x62, 0x63], .input [0x64, 0x65]]
    ⟨[some 0, none, none, none, some 1], []⟩

theorem twoFaults_last : twoFaults.1.Pairwise fun x y => x.Torn → y.stored = [] := by
  decide

theorem accepted_twoFaults : accepted (untorn twoFaults.1) = [.product [0x62, 0x63]] := rfl

theorem sends_read_back_twoFaults : accepted twoFaults.1 = [.product [0x62, 0x63]] ∧
    ∃ tail ending,
      twoFaults.2.stored = (Record.product [0x62, 0x63]).encode ++ tail ∧ tail.length = 45 ∧
      readRecords 2 [.data twoFaults.2.stored] = [.ok (some (.product [0x62, 0x63])), ending] ∧
      (ending = .ok none ∨ ∃ needed, ending = .error (.truncated needed tail.length)) := by
  have hsent : twoFaults = (twoFaults.1, twoFaults.2) := rfl
  obtain ⟨tail, htext, hread⟩ := sends_read_back FaultyOutput.storesPart _ hsent
  rw [accepted_twoFaults, List.flatMap_singleton] at htext hread
  have hstored : twoFaults.2.stored = (Record.product [0x62, 0x63]).encode ++ tail := htext
  have hlen : tail.length = 45 := by
    have hall : twoFaults.2.stored.length = 91 := rfl
    have hfirst : (Record.product [0x62, 0x63]).encode.length = 46 := rfl
    rw [hstored, List.length_append] at hall
    omega
  have hwhole : Delivers [.data twoFaults.2.stored] twoFaults.2.stored :=
    .whole (by decide)
  rw [← hstored] at hread
  obtain ⟨rest, -, hrecords, hends⟩ := hread _ hwhole
  obtain ⟨hall, hmore⟩ := hends twoFaults_last
  obtain ⟨ending, hlast, hending⟩ := hmore 0
  refine ⟨hall.symm, tail, ending, hstored, hlen, ?_, hending⟩
  have hboth := hrecords 1
  rw [hlast] at hboth
  exact hboth

/-! ## A header without its name -/

/-- The name of the first record is refused when its header is stored. -/
def afterHeader : List Sent × FaultyOutput :=
  sendAll FaultyOutput.sink FaultyOutput.stored [.input [0x61], .input [0x62]]
    ⟨[none, some 0], []⟩

/-- The second record was accepted, and its first byte is read as the name of the first. -/
theorem bareHeader_misread :
    afterHeader.1.map (fun x => x.result.isOk) = [false, true] ∧
    accepted afterHeader.1 = [.input [0x62]] ∧
    readRecords 1 [.data afterHeader.2.stored] = [.ok (some (.input [0x00]))] := by
  refine ⟨rfl, rfl, ?_⟩
  have hstored : afterHeader.2.stored =
      [Record.input [0x00]].flatMap Record.encode ++ afterHeader.2.stored.drop 45 := rfl
  have hdelivers : Delivers [.data afterHeader.2.stored]
      ([Record.input [0x00]].flatMap Record.encode ++ afterHeader.2.stored.drop 45) := by
    rw [← hstored]
    exact .whole (by decide)
  obtain ⟨rest, -, hread⟩ := readRecords_append hdelivers
  exact hread 0

end BuildScript.Deps
