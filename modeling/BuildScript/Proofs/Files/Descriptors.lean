import BuildScript.Files.Descriptors
import BuildScript.Proofs.Files.Buffering
import BuildScript.Proofs.Files.Writing
import Mathlib.Data.List.Pairwise
import Mathlib.Data.List.Perm.Subperm

/-!
# Open files

A file that is open for writing, at its end, only grows. What is written through one number is
seen in its own file, and all other files and numbers are left alone.

* `Machine.descriptor?_replace`, `Machine.descriptor?_close`, `Machine.create_ok`: the table;
* `Machine.isOpen_lowestFree`: a number that is free is found;
* `Machine.AtEnd`: an open file that is written at its end;
* `Machine.Writes`: files that are written at their ends, and nothing else happens;
* `Machine.fileOutput_storesAll`, `Machine.recordOutput_storesAll`: with the buffers in front.
-/

namespace BuildScript.Files

namespace Machine

variable {m m' : Machine} {n : Nat} {loc : Location}

/-! ## The table -/

theorem lookup_cons_eq (e : Nat × Descriptor) (table : List (Nat × Descriptor)) (k : Nat) :
    (e :: table).lookup k = if k = e.1 then some e.2 else table.lookup k := by
  obtain ⟨n, d⟩ := e
  rw [List.lookup_cons]
  by_cases h : k = n
  · simp [h]
  · simp [h, beq_false_of_ne h]

theorem descriptor?_replace (m : Machine) (n k : Nat) (d : Descriptor) :
    (m.replace n d).descriptor? k =
      if k = n then (m.descriptor? n).map fun _ => d else m.descriptor? k := by
  simp only [descriptor?, replace]
  induction m.table with
  | nil => split <;> rfl
  | cons e table ih =>
    rw [List.map_cons, lookup_cons_eq, lookup_cons_eq, lookup_cons_eq, ih]
    by_cases hnumber : e.1 = n
    · by_cases hk : k = n <;> simp [hnumber, hk]
    · have hne : n ≠ e.1 := Ne.symm hnumber
      by_cases hk : k = n
      · simp [hnumber, hk, hne]
      · simp [hnumber, hk]

theorem descriptor?_close (m : Machine) (n k : Nat) :
    (m.close n).descriptor? k = if k = n then none else m.descriptor? k := by
  simp only [descriptor?, close]
  induction m.table with
  | nil => split <;> rfl
  | cons e table ih =>
    rw [List.filter_cons, lookup_cons_eq]
    by_cases hnumber : e.1 = n
    · by_cases hk : k = n
      · simpa [hnumber, hk] using ih
      · simpa [hnumber, hk] using ih
    · have hne : n ≠ e.1 := Ne.symm hnumber
      by_cases hk : k = n
      · simpa [hnumber, hk, hne, lookup_cons_eq] using ih
      · simp only [bne_iff_ne, ne_eq, hnumber, not_false_eq_true, if_true, lookup_cons_eq, ih, hk,
          if_false]

theorem isOpen_iff : m.isOpen n = true ↔ n ∈ m.table.map Prod.fst := by
  rw [isOpen, descriptor?, List.lookup_isSome_iff, List.mem_map]
  constructor
  · rintro ⟨e, he, heq⟩
    exact ⟨e, he, (eq_of_beq heq).symm⟩
  · rintro ⟨e, he, rfl⟩
    exact ⟨e, he, beq_self_eq_true e.1⟩

/-- There are more numbers than open files, so that one is free. -/
theorem isOpen_lowestFree (m : Machine) : m.isOpen m.lowestFree = false := by
  rw [lowestFree]
  cases hfind : (List.range m.table.length).find? fun n => !m.isOpen n with
  | some k => simpa using List.find?_some hfind
  | none =>
    rw [Option.getD_none, ← Bool.not_eq_true]
    intro hopen
    have hall : List.range (m.table.length + 1) ⊆ m.table.map Prod.fst := by
      intro k hk
      rw [List.mem_range] at hk
      by_cases hlast : k = m.table.length
      · rw [hlast]
        exact isOpen_iff.1 hopen
      · have hk' := List.find?_range_eq_none.1 hfind k (by omega)
        exact isOpen_iff.1 (by simpa using hk')
    have hlength := (List.subperm_of_subset List.nodup_range hall).length_le
    rw [List.length_range, List.length_map] at hlength
    omega

/-- A file that was created is empty, lies where its path leads, and is open under the number that
was the lowest free one. -/
theorem create_ok {path : Bytes} (h : m.create path = .ok (n, m')) :
    n = m.lowestFree ∧ ∃ loc files, m.files.create path = .ok (loc, files) ∧ m'.files = files ∧
      (∀ k, m'.descriptor? k = if k = n then some ⟨loc, .write, false, 0⟩ else m.descriptor? k) ∧
      m'.ruleBuffer = m.ruleBuffer ∧ m'.recordBuffer = m.recordBuffer := by
  rw [create] at h
  cases hcreate : m.files.create path with
  | error e =>
    rw [hcreate] at h
    cases h
  | ok made =>
    rw [hcreate] at h
    cases h
    refine ⟨rfl, made.1, made.2, rfl, rfl, ?_, rfl, rfl⟩
    intro k
    have hfree : m.table.lookup m.lowestFree = none := by
      simpa [isOpen, descriptor?] using m.isOpen_lowestFree
    by_cases hk : k = m.lowestFree
    · subst hk
      simp [descriptor?, List.lookup_append, hfree]
    · simp [descriptor?, List.lookup_append, lookup_cons_eq, hk]

/-! ## Files that grow -/

/-- A number behind which a file is open for writing, at the end of the file. -/
def AtEnd (m : Machine) (n : Nat) (loc : Location) : Prop :=
  ∃ d content, m.descriptor? n = some d ∧ d.location = loc ∧ d.access.canWrite = true ∧
    m.files.fileAt? loc = some content ∧ (d.append = false → d.offset = content.length)

theorem overwrite_length (content bs : Bytes) :
    overwrite content content.length bs = content ++ bs := by
  simp [overwrite]

/-- A write at the end adds to the file. -/
theorem writeTo_atEnd (h : m.AtEnd n loc) (bs : Bytes) :
    ∃ m', m.writeTo n bs = (.ok (), m') ∧ m'.AtEnd n loc ∧
      m'.files = m.files.setContentAt loc (m.files.contentAt loc ++ bs) ∧
      (∀ k, k ≠ n → m'.descriptor? k = m.descriptor? k) ∧
      m'.ruleBuffer = m.ruleBuffer ∧ m'.recordBuffer = m.recordBuffer := by
  obtain ⟨d, content, hd, rfl, hwrite, hfile, hoffset⟩ := h
  have hcontent := FileSystem.contentAt_of_fileAt? hfile
  have hend : (if d.append = true then content.length else d.offset) = content.length := by
    cases happend : d.append with
    | true => rfl
    | false => simpa using hoffset happend
  have hwritten : m.writeTo n bs = (.ok (),
      { m.replace n { d with offset := content.length + bs.length } with
        files := m.files.setContentAt d.location (content ++ bs) }) := by
    simp only [writeTo, hd, hwrite, if_true, hcontent, hend, overwrite_length]
  refine ⟨_, hwritten, ?_, by rw [hcontent], ?_, rfl, rfl⟩
  · refine ⟨{ d with offset := content.length + bs.length }, content ++ bs, ?_, rfl, hwrite, ?_, ?_⟩
    · have hnew := descriptor?_replace m n n { d with offset := content.length + bs.length }
      rw [if_pos rfl, hd] at hnew
      exact hnew
    · have htakes := FileSystem.takesFile_of_fileAt? hfile
      exact (FileSystem.fileAt?_setContentAt htakes _ _).trans (if_pos rfl)
    · intro _
      exact (List.length_append).symm
  · intro k hk
    have hother := descriptor?_replace m n k { d with offset := content.length + bs.length }
    rw [if_neg hk] at hother
    exact hother

theorem AtEnd.fileAt?_eq (h : m.AtEnd n loc) :
    m.files.fileAt? loc = some (m.files.contentAt loc) := by
  obtain ⟨-, content, -, -, -, hfile, -⟩ := h
  rw [FileSystem.contentAt_of_fileAt? hfile, hfile]

theorem AtEnd.congr (h : m.AtEnd n loc) (hd : m'.descriptor? n = m.descriptor? n)
    (hfile : m'.files.fileAt? loc = m.files.fileAt? loc) : m'.AtEnd n loc := by
  obtain ⟨d, content, hdescriptor, hloc, hwrite, hcontent, hoffset⟩ := h
  exact ⟨d, content, hd.trans hdescriptor, hloc, hwrite, hfile.trans hcontent, hoffset⟩

/-- Files that are written at their ends, from `base` on: each through a number of its own, and no
other file has changed. -/
structure Writes (base : FileSystem) (ends : List (Nat × Location)) (m : Machine) : Prop where
  apart : ends.Pairwise fun a b => a.1 ≠ b.1 ∧ a.2 ≠ b.2
  atEnd : ∀ e ∈ ends, m.AtEnd e.1 e.2
  keeps : base.Keeps m.files
  others : ∀ other, other ∉ ends.map Prod.snd → m.files.fileAt? other = base.fileAt? other

section
variable {base : FileSystem} {ends : List (Nat × Location)}

theorem Writes.start (apart : ends.Pairwise fun a b => a.1 ≠ b.1 ∧ a.2 ≠ b.2)
    (atEnd : ∀ e ∈ ends, m.AtEnd e.1 e.2) : Writes m.files ends m :=
  ⟨apart, atEnd, .refl m.files, fun _ _ => rfl⟩

theorem Writes.apart_of_ne (h : Writes base ends m) {a b : Nat × Location} (ha : a ∈ ends)
    (hb : b ∈ ends) (hne : a ≠ b) : a.1 ≠ b.1 ∧ a.2 ≠ b.2 := by
  have hsymm : Std.Symm fun a b : Nat × Location => a.1 ≠ b.1 ∧ a.2 ≠ b.2 :=
    ⟨fun _ _ hab => ⟨hab.1.symm, hab.2.symm⟩⟩
  exact h.apart.forall ha hb hne

/-- A write through one of the numbers. -/
theorem Writes.write (h : Writes base ends m) (he : (n, loc) ∈ ends) (bs : Bytes) :
    ∃ m', m.writeTo n bs = (.ok (), m') ∧ Writes base ends m' ∧
      m'.files.contentAt loc = m.files.contentAt loc ++ bs ∧
      (∀ other, other ≠ loc → m'.files.fileAt? other = m.files.fileAt? other) ∧
      m'.ruleBuffer = m.ruleBuffer ∧ m'.recordBuffer = m.recordBuffer := by
  obtain ⟨m', hwrite, hend, hfiles, hnumbers, hrules, hrecords⟩ := writeTo_atEnd (h.atEnd _ he) bs
  have htakes := FileSystem.takesFile_of_fileAt? (h.atEnd _ he).fileAt?_eq
  have hat : ∀ other, m'.files.fileAt? other =
      if other = loc then some (m.files.contentAt loc ++ bs) else m.files.fileAt? other := by
    intro other
    rw [hfiles]
    exact FileSystem.fileAt?_setContentAt htakes _ other
  have hother : ∀ other, other ≠ loc → m'.files.fileAt? other = m.files.fileAt? other := by
    intro other hne
    rw [hat, if_neg hne]
  refine ⟨m', hwrite, ⟨h.apart, ?_, ?_, ?_⟩, ?_, hother, hrules, hrecords⟩
  · intro e hmem
    by_cases heq : e = (n, loc)
    · rw [heq]
      exact hend
    · obtain ⟨hnumber, hplace⟩ := h.apart_of_ne hmem he heq
      exact (h.atEnd e hmem).congr (hnumbers _ hnumber) (hother _ hplace)
  · rw [hfiles]
    exact h.keeps.trans (FileSystem.keeps_setContentAt htakes _)
  · intro other hnot
    have hne : other ≠ loc := by
      rintro rfl
      exact hnot (List.mem_map_of_mem he)
    rw [hother other hne, h.others other hnot]
  · apply FileSystem.contentAt_of_fileAt?
    rw [hat, if_pos rfl]

/-- What a machine holds back is no part of its files. -/
theorem Writes.congr (h : Writes base ends m) (hfiles : m'.files = m.files)
    (htable : m'.table = m.table) : Writes base ends m' := by
  refine ⟨h.apart, ?_, by rw [hfiles]; exact h.keeps, by rw [hfiles]; exact h.others⟩
  intro e he
  apply (h.atEnd e he).congr
  · rw [descriptor?, descriptor?, htable]
  · rw [hfiles]

/-- A number that is given up is no longer open, and the others still are. -/
theorem Writes.close (h : Writes base ((n, loc) :: ends) m) :
    Writes m.files ends (m.close n) := by
  obtain ⟨hfirst, hrest⟩ := List.pairwise_cons.1 h.apart
  refine ⟨hrest, ?_, .refl _, fun _ _ => rfl⟩
  intro e he
  apply (h.atEnd e (List.mem_cons_of_mem _ he)).congr
  · rw [descriptor?_close, if_neg]
    exact (hfirst e he).1.symm
  · rfl

/-! ## With buffers -/

/-- The rules that have come so far, in the file and in front of it. -/
def ruleText (loc : Location) (m : Machine) : Bytes := m.files.contentAt loc ++ m.ruleBuffer

/-- The records that have come so far, in the file and in front of it. -/
def recordText (loc : Location) (m : Machine) : Bytes := m.files.contentAt loc ++ m.recordBuffer

theorem writeTo_buffers (m : Machine) (n : Nat) (bs : Bytes) :
    (m.writeTo n bs).2.ruleBuffer = m.ruleBuffer ∧
      (m.writeTo n bs).2.recordBuffer = m.recordBuffer := by
  rw [writeTo]
  split
  · exact ⟨rfl, rfl⟩
  · split <;> exact ⟨rfl, rfl⟩

theorem sink_storesAll (he : (n, loc) ∈ ends) :
    (sink n).StoresAll (Writes base ends) fun m => m.files.contentAt loc where
  write bs m hm := by
    obtain ⟨m', hwrite, hwrites, htext, -⟩ := hm.write he bs
    exact ⟨m', hwrite, hwrites, htext⟩
  flush m hm := ⟨m, rfl, hm, rfl⟩

theorem ruleSlot_apart :
    ruleSlot.Apart (sink n) (Writes base ends) fun m => m.files.contentAt loc where
  get_set _ _ := rfl
  sound_set _ _ hm := hm.congr rfl rfl
  text_set _ _ := rfl
  get_write bs m := (m.writeTo_buffers n bs).1
  get_flush _ := rfl

theorem fileOutput_storesAll (he : (n, loc) ∈ ends) :
    (fileOutput n).StoresAll (Writes base ends) (ruleText loc) :=
  Sink.buffered_storesAll (sink_storesAll he) ruleSlot_apart fileCapacity

/-- Giving the rules up leaves them all in the file, and closes the number behind it. -/
theorem close_fileOutput (he : (n, loc) ∈ ends) (hm : Writes base ends m) :
    ∃ m', (fileOutput n).close m = m'.close n ∧ Writes base ends m' ∧
      m'.files.contentAt loc = ruleText loc m := by
  obtain ⟨m', hclose, hwrites, htext, -⟩ :=
    Sink.close_buffered (sink_storesAll he) ruleSlot_apart fileCapacity hm
  exact ⟨m', hclose, hwrites, htext⟩

/-- A property of a machine that stays when the file at a location grows and nothing else happens,
except to the records that are held back. -/
def Lasting (loc : Location) (kept : Machine → Prop) : Prop :=
  ∀ m m' : Machine, m.files.contentAt loc <+: m'.files.contentAt loc →
    (∀ other, other ≠ loc → m'.files.fileAt? other = m.files.fileAt? other) →
    m'.ruleBuffer = m.ruleBuffer → kept m → kept m'

/-- Records do nothing to the rules, if these go to another file. -/
theorem lasting_ruleText {rules : Location} (hne : rules ≠ loc) (text : Bytes) :
    Lasting loc fun m => ruleText rules m = text := by
  intro m m' _ hother hbuffer hkept
  have hcontent : m'.files.contentAt rules = m.files.contentAt rules := by
    rw [FileSystem.contentAt_eq_getD, FileSystem.contentAt_eq_getD, hother rules hne]
  rw [ruleText, hcontent, hbuffer]
  exact hkept

variable {kept : Machine → Prop} (hkept : Lasting loc kept)
include hkept

theorem sink_keeps (he : (n, loc) ∈ ends) :
    (sink n).StoresAll (fun m => Writes base ends m ∧ kept m) fun m => m.files.contentAt loc where
  write bs m hm := by
    obtain ⟨m', hwrite, hwrites, htext, hother, hrules, -⟩ := hm.1.write he bs
    have hgrown : m.files.contentAt loc <+: m'.files.contentAt loc := ⟨bs, htext.symm⟩
    exact ⟨m', hwrite, ⟨hwrites, hkept m m' hgrown hother hrules hm.2⟩, htext⟩
  flush m hm := ⟨m, rfl, hm, rfl⟩

theorem recordSlot_apart :
    recordSlot.Apart (sink n) (fun m => Writes base ends m ∧ kept m)
      fun m => m.files.contentAt loc where
  get_set _ _ := rfl
  sound_set _ m hm := ⟨hm.1.congr rfl rfl, hkept m _ (List.prefix_refl _) (fun _ _ => rfl) rfl hm.2⟩
  text_set _ _ := rfl
  get_write bs m := (m.writeTo_buffers n bs).2
  get_flush _ := rfl

theorem recordOutput_storesAll (he : (n, loc) ∈ ends) :
    (recordOutput n).StoresAll (fun m => Writes base ends m ∧ kept m) (recordText loc) :=
  Sink.buffered_storesAll (sink_keeps hkept he) (recordSlot_apart hkept) fileCapacity

/-- A flush leaves all records in the file. -/
theorem flush_recordOutput (he : (n, loc) ∈ ends) (hm : Writes base ends m) (hk : kept m) :
    ∃ m', (recordOutput n).flush m = (.ok (), m') ∧ Writes base ends m' ∧ kept m' ∧
      m'.files.contentAt loc = recordText loc m ∧ m'.recordBuffer = [] := by
  obtain ⟨m', hflush, ⟨hwrites, hk'⟩, htext, hempty⟩ :=
    Sink.flush_buffered (sink_keeps hkept he) (recordSlot_apart hkept) fileCapacity ⟨hm, hk⟩
  exact ⟨m', hflush, hwrites, hk', htext, hempty⟩

/-- So does giving them up, which closes the number behind it. -/
theorem close_recordOutput (he : (n, loc) ∈ ends) (hm : Writes base ends m) (hk : kept m) :
    ∃ m', (recordOutput n).close m = m'.close n ∧ Writes base ends m' ∧ kept m' ∧
      m'.files.contentAt loc = recordText loc m := by
  obtain ⟨m', hclose, ⟨hwrites, hk'⟩, htext, -⟩ :=
    Sink.close_buffered (sink_keeps hkept he) (recordSlot_apart hkept) fileCapacity ⟨hm, hk⟩
  exact ⟨m', hclose, hwrites, hk', htext⟩

end

end Machine

end BuildScript.Files
