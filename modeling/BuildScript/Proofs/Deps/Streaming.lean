import BuildScript.Deps.Reader
import BuildScript.Proofs.Deps.Codec

/-!
# Reading records from pieces

A stream hands out its bytes in pieces, cut anywhere, and a read call may be interrupted. Nothing
of that reaches whoever reads records: each read gives what decoding the bytes that are left
gives, and takes as many bytes as the record has.

* `Delivers`: the bytes that a source hands out before it ends;
* `readFull_delivers`: reading a number of bytes takes them off the front;
* `readRecord_delivers`: reading a record is decoding the front;
* `readRecords_append`: the records at the front of a stream, with anything behind them;
* `readRecord_agrees_decode`: all cases, and whole streams of records.
-/

namespace BuildScript.Deps

/-! ## Sources that do not fail -/

/-- A source hands out these bytes, in pieces that are not empty and with interruptions between
them, and then ends. -/
inductive Delivers : Source → Bytes → Prop where
  | ended : Delivers [] []
  | interrupted {source : Source} {bs : Bytes} :
      Delivers source bs → Delivers (.interrupted :: source) bs
  | piece {source : Source} {bs : Bytes} (b : UInt8) (front : Bytes) :
      Delivers source bs → Delivers (.data (b :: front) :: source) (b :: front ++ bs)

theorem Delivers.whole {bs : Bytes} (h : bs ≠ []) : Delivers [.data bs] bs := by
  cases bs with
  | nil => exact absurd rfl h
  | cons b front => simpa using Delivers.piece b front .ended

/-- A number of bytes is read up to the end of the source, and the rest is left. -/
theorem readFull_delivers {source : Source} {bs : Bytes} (h : Delivers source bs) (want : Nat) :
    ∃ rest, readFull want source = (.ok (bs.take want), rest) ∧ Delivers rest (bs.drop want) := by
  induction h generalizing want with
  | ended =>
    refine ⟨[], ?_, ?_⟩
    · cases want <;> simp [readFull]
    · rw [List.drop_nil]
      exact .ended
  | @interrupted source bs hsource ih =>
    cases want with
    | zero => exact ⟨.interrupted :: source, by simp [readFull], .interrupted hsource⟩
    | succ want =>
      obtain ⟨rest, hread, hrest⟩ := ih (want + 1)
      refine ⟨rest, ?_, hrest⟩
      rw [readFull]
      exact hread
  | @piece source bs b front hsource ih =>
    cases want with
    | zero => exact ⟨.data (b :: front) :: source, by simp [readFull], .piece b front hsource⟩
    | succ want =>
      rw [readFull]
      by_cases hlong : want < front.length
      · -- the piece alone is enough, and its end waits for the next read
        obtain ⟨c, left, hleft⟩ : ∃ c left, front.drop want = c :: left := by
          cases hdrop : front.drop want with
          | nil =>
            rw [List.drop_eq_nil_iff] at hdrop
            omega
          | cons c left => exact ⟨c, left, rfl⟩
        refine ⟨.data (c :: left) :: source, ?_, ?_⟩
        · have hlen : want + 1 - ((b :: front).take (want + 1)).length = 0 := by
            simp only [List.length_take, List.length_cons]
            omega
          simp only [List.drop_succ_cons, hleft, List.isEmpty_cons, hlen]
          rw [readFull]
          simp only [List.take_succ_cons, Except.map, List.append_nil]
          rw [List.cons_append, List.take_succ_cons, List.take_append_of_le_length (by omega)]
          rfl
        · rw [List.cons_append, List.drop_succ_cons, List.drop_append_of_le_length (by omega), hleft]
          exact .piece c left hsource
      · have htake : (b :: front).take (want + 1) = b :: front := by
          apply List.take_of_length_le
          rw [List.length_cons]
          omega
        have hdrop : (b :: front).drop (want + 1) = [] := by
          apply List.drop_eq_nil_of_le
          rw [List.length_cons]
          omega
        obtain ⟨rest, hread, hrest⟩ := ih (want + 1 - (b :: front).length)
        refine ⟨rest, ?_, ?_⟩
        · simp only [htake, hdrop, List.isEmpty_nil, if_true, hread, Except.map]
          rw [List.take_append, htake]
        · rw [List.drop_append, hdrop]
          exact hrest

/-! ## Records -/

/-- How many bytes the read of a record takes: those of the record, or all if there is none. -/
def taken (bs : Bytes) : Nat :=
  match decode bs with
  | .ok (_, used) => used
  | .error _ => bs.length

theorem taken_of_ok {bs : Bytes} {r : Record} {used : Nat} (h : decode bs = .ok (r, used)) :
    taken bs = used := by
  rw [taken, h]

theorem drop_taken_of_error {bs : Bytes} {e : ReadError} (h : decode bs = .error e) :
    bs.drop (taken bs) = [] := by
  rw [taken, h, List.drop_length]

/-- A read of a record gives nothing if no bytes are left, else what decoding them gives. -/
theorem readRecord_delivers {source : Source} {bs : Bytes} (h : Delivers source bs) :
    ∃ rest, Delivers rest (bs.drop (taken bs)) ∧
      readRecord source =
        (if bs.isEmpty then .ok none else (decode bs).map fun r => some r.1, rest) := by
  obtain ⟨afterHeader, hheader, hbody⟩ := readFull_delivers h headerLength
  have hlength : (bs.take headerLength).length = min headerLength bs.length := List.length_take
  rw [readRecord, hheader]
  by_cases hshort : bs.length < headerLength
  · have hdecode : decode bs = .error (.truncated headerLength bs.length) := by
      rw [decode, if_pos hshort]
    have hall : bs.take headerLength = bs := List.take_of_length_le (by omega)
    rw [List.drop_eq_nil_of_le (by omega)] at hbody
    refine ⟨afterHeader, ?_, ?_⟩
    · rw [drop_taken_of_error hdecode]
      exact hbody
    · cases bs with
      | nil => simp
      | cons b bs =>
        rw [hall, hdecode]
        simp only [List.isEmpty_cons, if_pos hshort]
        rfl
  · have hfull : ¬ (bs.take headerLength).length < headerLength := by omega
    have hne : (bs.take headerLength).isEmpty = false := by
      rw [List.isEmpty_eq_false_iff_exists_mem, ← List.length_pos_iff_exists_mem, hlength]
      simp only [headerLength] at hshort ⊢
      omega
    have hbs : bs.isEmpty = false := by
      cases bs with
      | nil => exact absurd (Nat.zero_lt_succ 43) hshort
      | cons b bs => rfl
    generalize hfields : ofHeader (bs.take headerLength) = fields
    obtain ⟨rest, hname, hrest⟩ := readFull_delivers hbody fields.2
    have hnameLength : ((bs.drop headerLength).take fields.2).length =
        min fields.2 (bs.length - headerLength) := by
      rw [List.length_take, List.length_drop]
    rw [List.drop_drop] at hrest
    simp only [hne, hbs, hfull, hfields, hname, if_false, Bool.false_eq_true]
    by_cases hcut : bs.length < headerLength + fields.2
    · have hdecode : decode bs = .error (.truncated (headerLength + fields.2) bs.length) := by
        rw [decode, if_neg hshort, hfields]
        exact if_pos hcut
      have havailable : headerLength + ((bs.drop headerLength).take fields.2).length =
          bs.length := by omega
      rw [List.drop_eq_nil_of_le (by omega)] at hrest
      refine ⟨rest, ?_, ?_⟩
      · rw [drop_taken_of_error hdecode]
        exact hrest
      · rw [hdecode, if_pos (by omega), havailable]
        rfl
    · have hdecode : decode bs = .ok
          ({ fields.1 with name := (bs.drop headerLength).take fields.2 },
            headerLength + fields.2) := by
        rw [decode, if_neg hshort, hfields]
        exact if_neg hcut
      refine ⟨rest, ?_, ?_⟩
      · rw [taken_of_ok hdecode]
        exact hrest
      · rw [hdecode, if_neg (by omega)]
        rfl

theorem readRecords_ended {source : Source} (h : Delivers source []) (more : Nat) :
    readRecords more source = List.replicate more (.ok none) := by
  induction more generalizing source with
  | zero => rfl
  | succ more ih =>
    obtain ⟨rest, hrest, hread⟩ := readRecord_delivers h
    rw [List.drop_nil] at hrest
    rw [readRecords, hread, List.replicate_succ]
    exact congrArg _ (ih hrest)

/-- The records at the front of a stream are read as what was delivered of each, whatever comes
behind them. -/
theorem readRecords_append {source : Source} {records : List Record} {tail : Bytes}
    (h : Delivers source (records.flatMap Record.encode ++ tail)) :
    ∃ rest, Delivers rest tail ∧ ∀ more, readRecords (records.length + more) source =
      records.map (fun r => .ok (some r.delivered)) ++ readRecords more rest := by
  induction records generalizing source with
  | nil => exact ⟨source, h, fun more => by rw [List.length_nil, Nat.zero_add]; rfl⟩
  | cons r records ih =>
    rw [List.flatMap_cons, List.append_assoc] at h
    obtain ⟨between, hbetween, hread⟩ := readRecord_delivers h
    rw [taken_of_ok (decode_encode_append r _), List.drop_left' r.encode_length] at hbetween
    rw [decode_encode_append] at hread
    obtain ⟨rest, hrest, hmore⟩ := ih hbetween
    refine ⟨rest, hrest, ?_⟩
    intro more
    have hne : (r.encode ++ (records.flatMap Record.encode ++ tail)).isEmpty = false := by
      have hpos : 0 < r.encode.length := by
        rw [r.encode_length, Record.encodedLength, headerLength]
        omega
      obtain ⟨b, hb⟩ := List.length_pos_iff_exists_mem.1 hpos
      rw [List.isEmpty_eq_false_iff_exists_mem]
      exact ⟨b, List.mem_append_left _ hb⟩
    have hcount : (r :: records).length + more = (records.length + more) + 1 := by
      rw [List.length_cons]
      omega
    rw [hcount, readRecords, hread, hne, hmore]
    rfl

/-- A stream of records is read as what was delivered of each, and then nothing comes any
more. -/
theorem readRecords_delivers {source : Source} {records : List Record}
    (h : Delivers source (records.flatMap Record.encode)) (more : Nat) :
    readRecords (records.length + more) source =
      records.map (fun r => .ok (some r.delivered)) ++ List.replicate more (.ok none) := by
  rw [← List.append_nil (records.flatMap Record.encode)] at h
  obtain ⟨rest, hrest, hread⟩ := readRecords_append h
  rw [hread, readRecords_ended hrest]

/-- Reading from pieces and decoding the whole agree: on nothing, on a record and the bytes that
it takes, and on what is missing of one. So a stream of records is read back, and then its end,
as often as one asks. -/
theorem readRecord_agrees_decode {source : Source} {bs : Bytes} (h : Delivers source bs) :
    (bs = [] → ∃ rest, readRecord source = (.ok none, rest) ∧ Delivers rest []) ∧
    (∀ r used, decode bs = .ok (r, used) →
      ∃ rest, readRecord source = (.ok (some r), rest) ∧ Delivers rest (bs.drop used)) ∧
    (∀ needed available, bs ≠ [] → decode bs = .error (.truncated needed available) →
      (readRecord source).1 = .error (.truncated needed available)) ∧
    (∀ records : List Record, bs = records.flatMap Record.encode → ∀ more,
      readRecords (records.length + more) source =
        records.map (fun r => .ok (some r.delivered)) ++ List.replicate more (.ok none)) := by
  obtain ⟨rest, hrest, hread⟩ := readRecord_delivers h
  refine ⟨?_, ?_, ?_, ?_⟩
  · rintro rfl
    rw [List.drop_nil] at hrest
    exact ⟨rest, hread, hrest⟩
  · intro r used hdecode
    have hne : bs.isEmpty = false := by
      cases bs with
      | nil => cases hdecode
      | cons b bs => rfl
    rw [taken_of_ok hdecode] at hrest
    rw [hdecode, hne] at hread
    exact ⟨rest, hread, hrest⟩
  · intro needed available hne hdecode
    rw [hread, hdecode, if_neg (by simpa using hne)]
    rfl
  · rintro records rfl more
    exact readRecords_delivers h more

/-- Two records, cut within the first header, behind it and across the two, with interruptions. -/
def cutSource : Source :=
  let bs := [Record.input [0x61], Record.product [0x62, 0x63]].flatMap Record.encode
  [.data (bs.take 3), .interrupted, .data ((bs.drop 3).take 41), .interrupted, .interrupted,
    .data ((bs.drop 44).take 7), .data (bs.drop 51)]

theorem readRecord_agrees_decode_cutSource :
    Delivers cutSource ([Record.input [0x61], Record.product [0x62, 0x63]].flatMap Record.encode) ∧
    readRecords 4 cutSource = [.ok (some (.input [0x61])), .ok (some (.product [0x62, 0x63])),
      .ok none, .ok none] := by
  have hdelivers : Delivers cutSource
      ([Record.input [0x61], Record.product [0x62, 0x63]].flatMap Record.encode) :=
    .piece _ _ (.interrupted (.piece _ _ (.interrupted (.interrupted
      (.piece _ _ (.piece _ _ .ended))))))
  refine ⟨hdelivers, ?_⟩
  exact (readRecord_agrees_decode hdelivers).2.2.2 _ rfl 2

end BuildScript.Deps
