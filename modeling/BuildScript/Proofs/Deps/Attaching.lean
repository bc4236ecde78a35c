import BuildScript.Proofs.Deps.Naming
import BuildScript.Proofs.Files.Descriptors
import BuildScript.Proofs.Session.Telling

/-!
# Attaching to a descriptor

A sender takes over the descriptor that the environment names, if that one is open for writing,
and leaves everything alone if not. From then on the file only grows: wherever the descriptor stood,
the records come behind what the file held.

* `Sender.Use`, `Sender.useAll`: what is done with a sender before it is given up;
* `Sender.ofVariable_cases`: the two ways to look at the environment;
* `Sender.isAttached_ofVariable_iff`: when a sender attaches;
* `Sender.useAll_storesAll`, `Sender.drop_recordOutput`: records on their way to the file;
* `Sender.ofVariable_exact`: all of it.
-/

namespace BuildScript.Deps.Sender

open Files Files.Machine

variable {ω : Type}

/-! ## Uses -/

/-- What can be done with a sender, as often as one likes. -/
inductive Use where
  | send (r : Record)
  | flush
  deriving DecidableEq

def use (s : Sender ω) : Use → ω → Except IoError Unit × ω
  | .send r => s.send r
  | .flush => s.flush

/-- Uses one after the other, with their results. -/
def useAll (s : Sender ω) : List Use → ω → List (Except IoError Unit) × ω
  | [], w => ([], w)
  | u :: uses, w =>
    let r := s.use u w
    let more := s.useAll uses r.2
    (r.1 :: more.1, more.2)

/-- The records that were sent. -/
def sent (uses : List Use) : List Record :=
  uses.filterMap fun
    | .send r => some r
    | .flush => none

/-- Whether all went well. -/
def AllOk (results : List (Except IoError Unit)) : Prop := ∀ r ∈ results, r = .ok ()

theorem useAll_inert (uses : List Use) (w : ω) :
    AllOk (inert.useAll uses w).1 ∧ (inert.useAll uses w).2 = w := by
  induction uses with
  | nil => exact ⟨nofun, rfl⟩
  | cons u uses ih =>
    have hstep : (inert : Sender ω).use u w = (.ok (), w) := by cases u <;> rfl
    rw [useAll, hstep]
    refine ⟨?_, ih.2⟩
    intro r hr
    rcases List.mem_cons.1 hr with rfl | hr
    · rfl
    · exact ih.1 r hr

/-- On an output that stores everything, the records come one behind the other. -/
theorem useAll_storesAll {sink : Sink ω} {sound : ω → Prop} {text : ω → Bytes}
    (h : sink.StoresAll sound text) (uses : List Use) {w : ω} (hw : sound w) :
    AllOk ((toSink sink).useAll uses w).1 ∧ sound ((toSink sink).useAll uses w).2 ∧
      text ((toSink sink).useAll uses w).2 = text w ++ (sent uses).flatMap Record.encode := by
  induction uses generalizing w with
  | nil => exact ⟨nofun, hw, (List.append_nil _).symm⟩
  | cons u uses ih =>
    have step : ∃ w', (toSink sink).use u w = (.ok (), w') ∧ sound w' ∧
        text w' = text w ++ (sent [u]).flatMap Record.encode := by
      cases u with
      | send r =>
        obtain ⟨w', hsend, hsound, htext⟩ := send_toSink h r hw
        exact ⟨w', hsend, hsound, by rw [htext]; simp [sent]⟩
      | flush =>
        obtain ⟨w', hflush, hsound, htext⟩ := h.flush w hw
        exact ⟨w', hflush, hsound, by rw [htext]; simp [sent]⟩
    obtain ⟨w', huse, hsound, htext⟩ := step
    obtain ⟨hok, hsound', htext'⟩ := ih hsound
    have hsent : sent (u :: uses) = sent [u] ++ sent uses := by
      rw [sent, ← List.singleton_append, List.filterMap_append]
      rfl
    rw [useAll, huse]
    refine ⟨?_, hsound', ?_⟩
    · intro r hr
      rcases List.mem_cons.1 hr with rfl | hr
      · rfl
      · exact hok r hr
    · rw [htext', htext, hsent, List.flatMap_append, List.append_assoc]

/-! ## Looking at the environment -/

/-- Whether a number is open for writing. -/
def OpenForWriting (m : Machine) (n : Nat) : Prop :=
  ∃ d, m.descriptor? n = some d ∧ d.access.canWrite = true

/-- What the environment names is taken over if it can be written to, and nothing happens if not. -/
theorem ofVariable_cases (value : Option Bytes) (m : Machine) :
    (∃ n d, namedNumber? value = some n ∧ m.descriptor? n = some d ∧ d.access.canWrite = true ∧
      ofVariable value m = (toSink (recordOutput n), [], m.replace n { d with append := true })) ∨
    (∀ n, namedNumber? value = some n → ¬ OpenForWriting m n) ∧
      ∃ warnings, ofVariable value m = (inert, warnings, m) := by
  rw [namedNumber?, ofVariable]
  cases value.bind Utf8.decode? with
  | none => exact .inr ⟨by simp, [], rfl⟩
  | some text =>
    simp only [Option.bind_some, ofText]
    cases hnumber : descriptorNumber? text with
    | none => exact .inr ⟨by simp, [.invalidNumber], rfl⟩
    | some n =>
      simp only [attach?]
      cases hd : m.descriptor? n with
      | none =>
        refine .inr ⟨?_, [.cannotReport], rfl⟩
        rintro k hk ⟨d, hopen, -⟩
        cases hk
        rw [hd] at hopen
        cases hopen
      | some d =>
        cases hwrite : d.access.canWrite with
        | true => exact .inl ⟨n, d, rfl, hd, hwrite, by simp [hwrite]⟩
        | false =>
          refine .inr ⟨?_, [.cannotReport], by simp [hwrite]⟩
          rintro k hk ⟨d', hopen, hcan⟩
          cases hk
          rw [hd] at hopen
          cases hopen
          rw [hwrite] at hcan
          cases hcan

/-- A sender attaches exactly to a number that is open for writing. -/
theorem isAttached_ofVariable_iff {value : Option Bytes} {m : Machine} :
    (ofVariable value m).1.isAttached = true ↔
      ∃ n, namedNumber? value = some n ∧ OpenForWriting m n := by
  rcases ofVariable_cases value m with ⟨n, d, hnamed, hd, hwrite, heq⟩ | ⟨hclosed, warnings, heq⟩
  · rw [heq]
    exact iff_of_true rfl ⟨n, hnamed, d, hd, hwrite⟩
  · rw [heq]
    refine iff_of_false nofun ?_
    rintro ⟨n, hnamed, hopen⟩
    exact hclosed n hnamed hopen

theorem descriptor?_append {m : Machine} {n : Nat} {d : Descriptor} (hd : m.descriptor? n = some d) :
    (m.replace n { d with append := true }).descriptor? n = some { d with append := true } := by
  rw [descriptor?_replace, if_pos rfl, hd]
  rfl

/-- A descriptor that appends is at the end of its file, wherever it stands. -/
theorem atEnd_append {m : Machine} {n : Nat} {d : Descriptor} (hd : m.descriptor? n = some d)
    (hwrite : d.access.canWrite = true) {content : Bytes}
    (hfile : m.files.fileAt? d.location = some content) :
    (m.replace n { d with append := true }).AtEnd n d.location :=
  ⟨{ d with append := true }, content, descriptor?_append hd, rfl, hwrite, hfile, nofun⟩

section
variable {base : FileSystem} {ends : List (Nat × Location)} {m : Machine} {n : Nat} {loc : Location}
variable {kept : Machine → Prop}

/-- A sender that is given up leaves all its records in the file. -/
theorem drop_recordOutput (hkept : Lasting loc kept) (he : (n, loc) ∈ ends)
    (hm : Writes base ends m) (hk : kept m) :
    ∃ m', (toSink (recordOutput n)).drop m = ([], m'.close n) ∧ Writes base ends m' ∧ kept m' ∧
      m'.files.contentAt loc = recordText loc m := by
  obtain ⟨m₁, hflush, hwrites₁, hk₁, htext₁, hempty⟩ := flush_recordOutput hkept he hm hk
  obtain ⟨m₂, hclose, hwrites₂, hk₂, htext₂⟩ := close_recordOutput hkept he hwrites₁ hk₁
  refine ⟨m₂, ?_, hwrites₂, hk₂, ?_⟩
  · simp only [drop, toSink, hflush, hclose]
  · rw [htext₂, recordText, hempty, List.append_nil, htext₁]

end

/-! ## All of it -/

/-- What comes of using a sender and giving it up, if it has taken over the number of a file that held
some content: in the file, everything that is sent comes behind that content. -/
structure Appends (s : Sender Machine) (m : Machine) (n : Nat) (loc : Location) (content : Bytes)
    (uses : List Use) : Prop where
  ok : AllOk (s.useAll uses m).1
  /-- What is in the file at any time. -/
  grown : ∃ written, written <+: (sent uses).flatMap Record.encode ∧
    (s.useAll uses m).2.files.fileAt? loc = some (content ++ written)
  flushed : ∃ m', s.flush (s.useAll uses m).2 = (.ok (), m') ∧
    m'.files.fileAt? loc = some (content ++ (sent uses).flatMap Record.encode)
  dropped : ∃ m', s.drop (s.useAll uses m).2 = ([], m') ∧
    m'.files.fileAt? loc = some (content ++ (sent uses).flatMap Record.encode) ∧
    m'.isOpen n = false ∧ ∀ other, other ≠ loc → m'.files.fileAt? other = m.files.fileAt? other

theorem isOpen_close (m : Machine) (n : Nat) : (m.close n).isOpen n = false := by
  rw [isOpen, descriptor?_close, if_pos rfl]
  rfl

/-- The content of a file that is open stays at its front. -/
theorem lasting_content (loc : Location) (content : Bytes) :
    Lasting loc fun m => content <+: m.files.contentAt loc := by
  intro m m' hgrown _ _ hfront
  exact hfront.trans hgrown

theorem appends_of_atEnd {m : Machine} {n : Nat} {loc : Location} {content : Bytes}
    (hend : m.AtEnd n loc) (hfile : m.files.fileAt? loc = some content)
    (hempty : m.recordBuffer = []) (uses : List Use) :
    Appends (toSink (recordOutput n)) m n loc content uses := by
  have hcontent := FileSystem.contentAt_of_fileAt? hfile
  have hmem : (n, loc) ∈ [(n, loc)] := List.mem_singleton.2 rfl
  have hstart : Writes m.files [(n, loc)] m := by
    refine .start (List.pairwise_singleton _ _) ?_
    intro e he
    rw [List.mem_singleton.1 he]
    exact hend
  have hkept := lasting_content loc content
  have hfront : content <+: m.files.contentAt loc := ⟨[], by rw [List.append_nil, hcontent]⟩
  obtain ⟨hok, ⟨hwrites, written, hwritten⟩, htext⟩ :=
    useAll_storesAll (recordOutput_storesAll hkept hmem) uses ⟨hstart, hfront⟩
  have hall : recordText loc ((toSink (recordOutput n)).useAll uses m).2 =
      content ++ (sent uses).flatMap Record.encode := by
    rw [htext, recordText, hempty, hcontent, List.append_nil]
  refine ⟨hok, ⟨written, ?_, ?_⟩, ?_, ?_⟩
  · -- what is not in the file yet is held back
    rw [recordText, ← hwritten, List.append_assoc] at hall
    exact ⟨_, List.append_cancel_left hall⟩
  · rw [(hwrites.atEnd _ hmem).fileAt?_eq, hwritten]
  · obtain ⟨m', hflush, hwrites', -, hflushed, -⟩ :=
      flush_recordOutput hkept hmem hwrites ⟨written, hwritten⟩
    refine ⟨m', hflush, ?_⟩
    rw [(hwrites'.atEnd _ hmem).fileAt?_eq, hflushed, hall]
  · obtain ⟨m', hdrop, hwrites', -, hdropped⟩ :=
      drop_recordOutput hkept hmem hwrites ⟨written, hwritten⟩
    refine ⟨m'.close n, hdrop, ?_, isOpen_close m' n, ?_⟩
    · have hclosed : (m'.close n).files.fileAt? loc = m'.files.fileAt? loc := rfl
      rw [hclosed, (hwrites'.atEnd _ hmem).fileAt?_eq, hdropped, hall]
    · intro other hne
      exact hwrites'.others other fun hother => hne (List.mem_singleton.1 hother)

/-- Attaching is exact and append-only. A sender attaches if, and only if, the environment has a text
that names a number that is open for writing. If it does, the file only grows by what is sent: all of
it is there after a flush, and when the sender is given up, which closes the number. If it does not,
nothing happens, whatever is done with it. -/
theorem ofVariable_exact (value : Option Bytes) (files : FileSystem)
    (table : List (Nat × Descriptor)) :
    let m := Machine.start files table
    let s := (ofVariable value m).1
    let m' := (ofVariable value m).2.2
    (s.isAttached = true ↔
      ∃ text n, value = some (Utf8.encode text) ∧ Names text n ∧ OpenForWriting m n) ∧
    ((∀ text, value ≠ some (Utf8.encode text)) → ofVariable value m = ofVariable none m) ∧
    (s.isAttached = false → m' = m ∧
      ∀ uses, AllOk (s.useAll uses m').1 ∧ (s.useAll uses m').2 = m ∧ s.drop m = ([], m)) ∧
    ∀ text n d content, value = some (Utf8.encode text) → Names text n →
      m.descriptor? n = some d → d.access.canWrite = true →
      files.fileAt? d.location = some content → ∀ uses, Appends s m' n d.location content uses := by
  intro m s m'
  refine ⟨?_, ?_, ?_, ?_⟩
  · rw [isAttached_ofVariable_iff]
    constructor
    · rintro ⟨n, hnamed, hopen⟩
      obtain ⟨text, htext, hnames⟩ := namedNumber?_eq_some_iff.1 hnamed
      exact ⟨text, n, htext, hnames, hopen⟩
    · rintro ⟨text, n, htext, hnames, hopen⟩
      exact ⟨n, namedNumber?_eq_some_iff.2 ⟨text, htext, hnames⟩, hopen⟩
  · intro hnot
    rw [ofVariable, ofVariable, bind_decode?_of_not_text hnot]
    rfl
  · intro hinert
    rcases ofVariable_cases value m with ⟨k, d, -, -, -, heq⟩ | ⟨-, warnings, heq⟩
    · have hsink : s = toSink (recordOutput k) := congrArg Prod.fst heq
      rw [hsink] at hinert
      cases hinert
    · have hs : s = inert := congrArg Prod.fst heq
      have hm : m' = m := congrArg (fun r => r.2.2) heq
      refine ⟨hm, ?_⟩
      intro uses
      rw [hs, hm]
      obtain ⟨hok, hsame⟩ := useAll_inert uses m
      exact ⟨hok, hsame, rfl⟩
  · intro text n d content htext hnames hd hwrite hfile uses
    have hnamed := namedNumber?_eq_some_iff.2 ⟨text, htext, hnames⟩
    rcases ofVariable_cases value m with ⟨k, d', hnamed', hd', -, heq⟩ | ⟨hclosed, -⟩
    · obtain rfl : n = k := Option.some.inj (hnamed.symm.trans hnamed')
      obtain rfl : d = d' := Option.some.inj (hd.symm.trans hd')
      have hs : s = toSink (recordOutput n) := congrArg Prod.fst heq
      have hm : m' = m.replace n { d with append := true } := congrArg (fun r => r.2.2) heq
      rw [hs, hm]
      exact appends_of_atEnd (atEnd_append hd hwrite hfile) hfile rfl uses
    · exact absurd ⟨d, hd, hwrite⟩ (hclosed n hnamed)

/-- A file that holds something, and a number that stands at its start. -/
def oldLog : FileSystem := ⟨.dir [([0x64], .file [0x6F])], []⟩

def oldLogNumber : List (Nat × Descriptor) := [(3, ⟨[[0x64]], .readWrite, false, 0⟩)]

/-- What is sent comes behind what the file held, whatever was flushed on the way. -/
theorem ofVariable_exact_blanks :
    Names " +03\n" 3 ∧
    let found := ofVariable (some (Utf8.encode " +03\n")) (.start oldLog oldLogNumber)
    let used := found.1.useAll [.send (.input [0x61]), .flush, .send (.product [0x62])] found.2.2
    ∃ m', found.1.drop used.2 = ([], m') ∧ m'.isOpen 3 = false ∧
      m'.files.fileAt? [[0x64]] =
        some ([0x6F] ++ [Record.input [0x61], .product [0x62]].flatMap Record.encode) := by
  have hnames : Names " +03\n" 3 := descriptorNumber?_eq_some_iff.1 (by decide)
  obtain ⟨-, -, -, hattached⟩ :=
    ofVariable_exact (some (Utf8.encode " +03\n")) oldLog oldLogNumber
  obtain ⟨-, -, -, m', hdrop, hfile, hclosed, -⟩ := hattached _ 3 _ [0x6F] rfl hnames rfl rfl rfl
    [.send (.input [0x61]), .flush, .send (.product [0x62])]
  exact ⟨hnames, m', hdrop, hclosed, hfile⟩

end BuildScript.Deps.Sender
