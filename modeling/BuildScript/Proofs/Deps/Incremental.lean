import BuildScript.Proofs.Deps.Streaming
import Mathlib.Logic.Function.Iterate

/-!
# Decoding while bytes come in

Where there is no whole record yet, decoding tells how many bytes it needs. It goes on to need as
many while fewer are there: those of a header, and once the header is there, those of the name
with it. So whoever fetches what is needed has the record after two rounds, and nothing of what
follows it.

* `needed_append`, `needed_append_of_lt`: how many bytes a record takes, as far as the bytes tell, is
  told anew once only;
* `Fetching.fetch`: a round of a reader that fetches what is needed;
* `Fetching.Stands.fetch`, `Fetching.Stands.iterate`: what one round and any number of rounds keep;
* `decode_incremental`: what decoding tells of more bytes, and what it makes of such a reader.
-/

namespace BuildScript.Deps

/-! ## More bytes -/

/-- Behind a header, more bytes are needed for nothing. -/
theorem needed_append {bs : Bytes} (h : headerLength ≤ bs.length) (more : Bytes) :
    needed (bs ++ more) = needed bs := by
  have hlong : headerLength ≤ (bs ++ more).length := by
    rw [List.length_append]
    omega
  rw [needed_of_long h, needed_of_long hlong, List.take_append_of_le_length h]

/-- As long as fewer bytes are there than are needed, as many are needed. -/
theorem needed_append_of_lt {bs more : Bytes} (h : (bs ++ more).length < needed bs) :
    needed (bs ++ more) = needed bs := by
  by_cases hshort : bs.length < headerLength
  · rw [needed_of_short hshort] at h ⊢
    exact needed_of_short h
  · exact needed_append (by omega) more

/-- What is needed of a part is not more than what is needed of the whole. -/
theorem needed_le_append (bs more : Bytes) : needed bs ≤ needed (bs ++ more) := by
  by_cases hshort : bs.length < headerLength
  · rw [needed_of_short hshort]
    exact headerLength_le_needed _
  · rw [needed_append (by omega)]

/-! ## A reader that fetches what is needed -/

/-- What a reader has got, and where more comes from. -/
structure Fetching where
  got : Bytes
  source : Source

namespace Fetching

/-- One round: the bytes that are needed, as far as the source has them. A reader that has its
record fetches nothing. -/
def fetch (f : Fetching) : Fetching :=
  match decode f.got with
  | .error (.truncated needed _) =>
    match readFull (needed - f.got.length) f.source with
    | (.ok more, source) => ⟨f.got ++ more, source⟩
    | (.error _, source) => ⟨f.got, source⟩
  | _ => f

/-- A reader has got a part of a stream, not more than the record at its start takes, and the rest
is to come. -/
structure Stands (whole rest : Bytes) (f : Fetching) : Prop where
  delivers : Delivers f.source rest
  got_append : f.got ++ rest = whole
  le_needed : f.got.length ≤ needed whole

variable {whole rest : Bytes} {f : Fetching}

/-- A reader that has what it needs fetches nothing. -/
theorem fetch_of_le (h : needed f.got ≤ f.got.length) : f.fetch = f := by
  rw [fetch, decode_eq_ok_iff.2 ⟨h, rfl, rfl⟩]

/-- Any other one has what it needed after one round, or all that there is. -/
theorem fetch_of_lt (hsource : Delivers f.source rest) (h : f.got.length < needed f.got) :
    ∃ source, f.fetch = ⟨f.got ++ rest.take (needed f.got - f.got.length), source⟩ ∧
      Delivers source (rest.drop (needed f.got - f.got.length)) := by
  obtain ⟨source, hread, hleft⟩ := readFull_delivers hsource (needed f.got - f.got.length)
  refine ⟨source, ?_, hleft⟩
  rw [fetch, decode_eq_error_iff.2 ⟨h, rfl⟩]
  simp only [hread]

namespace Stands

theorem length_add (h : Stands whole rest f) : f.got.length + rest.length = whole.length := by
  rw [← List.length_append, h.got_append]

theorem needed_got_le (h : Stands whole rest f) : needed f.got ≤ needed whole :=
  h.got_append ▸ needed_le_append f.got rest

theorem needed_got (h : Stands whole rest f) (hlong : headerLength ≤ f.got.length) :
    needed f.got = needed whole := by
  rw [← h.got_append, needed_append hlong]

/-- A round does not go beyond the record, and leaves the reader with the header at least. If it
has had that before, it has the record then. -/
theorem fetch (h : Stands whole rest f) :
    ∃ left, Stands whole left f.fetch ∧ min headerLength whole.length ≤ f.fetch.got.length ∧
      (min headerLength whole.length ≤ f.got.length →
        f.fetch.got.length = min (needed whole) whole.length) := by
  have hheader := headerLength_le_needed f.got
  have hsum := h.length_add
  have hle := h.needed_got_le
  have hbound := h.le_needed
  by_cases hlt : f.got.length < needed f.got
  · obtain ⟨source, hfetch, hleft⟩ := fetch_of_lt h.delivers hlt
    have hlength : f.fetch.got.length = min (needed f.got) whole.length := by
      rw [hfetch, List.length_append, List.length_take]
      omega
    have hgot : f.fetch.got ++ rest.drop (needed f.got - f.got.length) = whole := by
      rw [hfetch, List.append_assoc, List.take_append_drop, h.got_append]
    refine ⟨_, ⟨by rw [hfetch]; exact hleft, hgot, by omega⟩, by omega, ?_⟩
    intro hmin
    by_cases hlong : headerLength ≤ f.got.length
    · rw [hlength, h.needed_got hlong]
    · -- the stream ends within the header, and all of it has been there before
      omega
  · rw [fetch_of_le (by omega)]
    have hsame := h.needed_got (by omega)
    exact ⟨rest, h, by omega, by omega⟩

/-- Two rounds are enough for the record, and no number of rounds goes beyond it. -/
theorem iterate (h : Stands whole rest f) (n : Nat) :
    ∃ left, Stands whole left (Fetching.fetch^[n] f) ∧
      (2 ≤ n → (Fetching.fetch^[n] f).got.length = min (needed whole) whole.length) := by
  have hrounds : ∃ left, Stands whole left (Fetching.fetch^[n] f) ∧
      (1 ≤ n → min headerLength whole.length ≤ (Fetching.fetch^[n] f).got.length) ∧
      (2 ≤ n → (Fetching.fetch^[n] f).got.length = min (needed whole) whole.length) := by
    induction n with
    | zero => exact ⟨rest, h, by omega, by omega⟩
    | succ n ih =>
      obtain ⟨before, hbefore, hfirst, -⟩ := ih
      obtain ⟨left, hleft, hheader, hrecord⟩ := hbefore.fetch
      rw [Function.iterate_succ_apply']
      exact ⟨left, hleft, fun _ => hheader, fun hn => hrecord (hfirst (by omega))⟩
  obtain ⟨left, hleft, -, hrecord⟩ := hrounds
  exact ⟨left, hleft, hrecord⟩

/-- With that many bytes, decoding tells the same as with all of them. -/
theorem decode_got (h : Stands whole rest f)
    (hlength : f.got.length = min (needed whole) whole.length) : decode f.got = decode whole := by
  have hheader := headerLength_le_needed whole
  by_cases hlong : needed whole ≤ whole.length
  · have hneeded : needed f.got ≤ f.got.length := by
      rw [h.needed_got (by omega)]
      omega
    have hdecode := decode_eq_ok_iff.2 ⟨hneeded, rfl, rfl⟩
    rw [← h.got_append, decode_append hdecode rest, hdecode]
  · have hsum := h.length_add
    have hrest : rest = [] := List.length_eq_zero_iff.1 (by omega)
    rw [← h.got_append, hrest, List.append_nil]

end Stands

end Fetching

/-- More bytes change nothing behind a record. Before that, decoding tells how many bytes it has,
needs more than these, and needs as many until they are there. So a reader that is within the first
record of its stream, or has nothing yet, never fetches more than what is needed up to the end of
that record; two rounds give it the record, and leave what follows it to be read. Where the stream
ends before, two rounds tell the reader what decoding the stream would tell. -/
theorem decode_incremental :
    (∀ bs r used, decode bs = .ok (r, used) → ∀ more, decode (bs ++ more) = .ok (r, used)) ∧
    (∀ bs e, decode bs = .error e → ∃ needed, e = .truncated needed bs.length ∧
      bs.length < needed ∧ ∀ more, (bs ++ more).length < needed →
        decode (bs ++ more) = .error (.truncated needed (bs ++ more).length)) ∧
    ∀ (f : Fetching) (rest : Bytes), Delivers f.source rest → ∀ rounds,
      let g := Fetching.fetch^[rounds] f
      (∀ r used, decode (f.got ++ rest) = .ok (r, used) → f.got.length ≤ used →
        g.got.length ≤ used ∧ ∃ left, Delivers g.source left ∧ g.got ++ left = f.got ++ rest ∧
          (2 ≤ rounds → decode g.got = .ok (r, used) ∧ left = (f.got ++ rest).drop used)) ∧
      (∀ e, decode (f.got ++ rest) = .error e → 2 ≤ rounds → decode g.got = .error e) := by
  refine ⟨fun bs r used h => decode_append h, ?_, ?_⟩
  · intro bs e h
    obtain ⟨hlt, rfl⟩ := decode_eq_error_iff.1 h
    refine ⟨needed bs, rfl, hlt, ?_⟩
    intro more hmore
    rw [decode_eq_error_iff, needed_append_of_lt hmore]
    exact ⟨hmore, rfl⟩
  · intro f rest hsource rounds g
    have hstands (hle : f.got.length ≤ needed (f.got ++ rest)) :
        ∃ left, Fetching.Stands (f.got ++ rest) left g ∧
          (2 ≤ rounds → decode g.got = decode (f.got ++ rest)) := by
      have hstart : Fetching.Stands (f.got ++ rest) rest f := ⟨hsource, rfl, hle⟩
      obtain ⟨left, hleft, hlength⟩ := hstart.iterate rounds
      exact ⟨left, hleft, fun hrounds => hleft.decode_got (hlength hrounds)⟩
    constructor
    · intro r used hdecode hle
      obtain ⟨-, -, hused⟩ := decode_eq_ok_iff.1 hdecode
      obtain ⟨left, hleft, hsame⟩ := hstands (hused ▸ hle)
      have hbound : g.got.length ≤ used := hused ▸ hleft.le_needed
      refine ⟨hbound, left, hleft.delivers, hleft.got_append, ?_⟩
      intro hrounds
      have hrecord := (hsame hrounds).trans hdecode
      have hlength : g.got.length = used :=
        Nat.le_antisymm hbound (decode_used hrecord).2
      refine ⟨hrecord, ?_⟩
      rw [← hleft.got_append, ← hlength, List.drop_left]
    · intro e hdecode hrounds
      obtain ⟨hshort, -⟩ := decode_eq_error_iff.1 hdecode
      rw [List.length_append] at hshort
      obtain ⟨-, -, hsame⟩ := hstands (by omega)
      exact (hsame hrounds).trans hdecode

/-- Two records behind one another. -/
def pairBytes : Bytes := (Record.input [0x61]).encode ++ (Record.product [0x62, 0x63]).encode

/-- The first piece ends within the second record. -/
def pairSource : Source := [.interrupted, .data (pairBytes.take 50), .data (pairBytes.drop 50)]

theorem decode_incremental_pair :
    decode (pairBytes.take 10) = .error (.truncated 44 10) ∧
    decode (pairBytes.take 10 ++ List.replicate 33 0xFF) = .error (.truncated 44 43) ∧
    Delivers pairSource pairBytes ∧ decode pairBytes = .ok (.input [0x61], 45) ∧
    ∃ left, Delivers (Fetching.fetch^[2] ⟨[], pairSource⟩).source left ∧
      (Fetching.fetch^[2] ⟨[], pairSource⟩).got.length ≤ 45 ∧
      decode (Fetching.fetch^[2] ⟨[], pairSource⟩).got = .ok (.input [0x61], 45) ∧
      left = (Record.product [0x62, 0x63]).encode := by
  have hshort : decode (pairBytes.take 10) = .error (.truncated 44 10) := rfl
  obtain ⟨needed, heq, -, hmore⟩ := decode_incremental.2.1 _ _ hshort
  obtain ⟨rfl, -⟩ : 44 = needed ∧ 10 = (pairBytes.take 10).length := by simpa using heq
  have hdelivers : Delivers pairSource pairBytes :=
    .interrupted (.piece _ _ (.piece _ _ .ended))
  have hdecode : decode pairBytes = .ok (.input [0x61], 45) := decode_encode_append _ _
  obtain ⟨hrecord, -⟩ := decode_incremental.2.2 ⟨[], pairSource⟩ pairBytes hdelivers 2
  obtain ⟨hle, left, hleft, -, hafter⟩ := hrecord _ _ hdecode (Nat.zero_le _)
  obtain ⟨hgot, heq⟩ := hafter (Nat.le_refl 2)
  exact ⟨hshort, hmore _ (by decide), hdelivers, hdecode, left, hleft, hle, hgot, heq⟩

end BuildScript.Deps
