import BuildScript.Rules.Rule
import BuildScript.Proofs.Json.Scan

/-!
# Rules that are written are read back

* `members_member`: one member of a written rule;
* `read_encode`: a whole rule, with anything behind it;
* `printed_encode`: rules as the elements of a list;
* `printable_of_mem_encode`: a written rule has no byte below the blank, so it is a line.
-/

namespace BuildScript.Rule

open Json

/-! ## Lists of strings -/

theorem blanks_nil : Blanks [] := by
  intro b hb
  cases hb

theorem commas_eq_intercalate (parts : List Bytes) :
    commas parts = List.intercalate [commaByte] parts := by
  induction parts with
  | nil => rfl
  | cons part parts ih =>
    cases parts with
    | nil => simp [commas, List.intercalate]
    | cons next parts =>
      rw [commas, ih, List.intercalate_cons_cons, List.append_assoc]
      · rfl
      · exact List.cons_ne_nil next parts

theorem strings_encodeList (items : List String) (rest : Bytes) :
    strings (encodeList items ++ rest) = .ok (items, rest) := by
  have := printed_quote.list_intercalate blanks_nil blanks_nil blanks_nil rest items
  rw [strings, encodeList, commas_eq_intercalate]
  simpa using this

/-! ## Members -/

theorem find_key (f : Field) : Field.all.find? (fun g => g.key == f.key) = some f := by
  cases f <;> decide

theorem member_encodeMember {d : Draft} {f : Field} (h : d.get? f = none)
    (items : List String) (rest : Bytes) :
    member f.key d (colonByte :: (encodeList items ++ rest)) = .ok (d.set items f, rest) := by
  have hcolon : colon (colonByte :: (encodeList items ++ rest)) =
      .ok (encodeList items ++ rest) := by
    rw [colon, skipBlanks_cons (by decide)]
    rfl
  unfold member
  rw [find_key]
  dsimp only
  rw [h, hcolon]
  simp only [Option.isSome_none, Bool.false_eq_true, if_false, Except.bind, strings_encodeList,
    Except.map]

theorem nextMember_quote (key : String) (rest : Bytes) :
    nextMember true (quote key ++ rest) =
      .ok (.inr (key.toList.flatMap escape ++ quoteByte :: rest)) := by
  rw [quote_append, nextMember, skipBlanks_cons (by decide)]
  rfl

theorem nextMember_comma (key : String) (rest : Bytes) :
    nextMember false (commaByte :: (quote key ++ rest)) =
      .ok (.inr (key.toList.flatMap escape ++ quoteByte :: rest)) := by
  rw [quote_append, nextMember, skipBlanks_cons (by decide)]
  dsimp only
  rw [if_neg (by decide), if_neg (by decide), if_pos rfl, skipBlanks_cons (by decide)]
  rfl

/-- What stands before a member: nothing, or a comma if it is not the first. -/
def memberLead (first : Bool) : Bytes := if first then [] else [commaByte]

/-- A written member whose field has not been there is taken into the draft. -/
theorem members_member {d : Draft} {f : Field} (h : d.get? f = none) (first : Bool)
    (items : List String) (rest : Bytes) (fuel : Nat) :
    members (fuel + 1) first d (memberLead first ++ (encodeMember f.key items ++ rest)) =
      members fuel false (d.set items f) rest := by
  have hnext : nextMember first (memberLead first ++ (encodeMember f.key items ++ rest)) =
      .ok (.inr (f.key.toList.flatMap escape ++
        quoteByte :: (colonByte :: (encodeList items ++ rest)))) := by
    rw [encodeMember, List.append_assoc]
    cases first
    · exact nextMember_comma f.key _
    · exact nextMember_quote f.key _
  rw [members, hnext]
  simp only [Except.bind, text_quote, member_encodeMember h]

theorem members_close (d : Draft) (rest : Bytes) (fuel : Nat) :
    members (fuel + 1) false d (closeObject :: rest) = .ok (d, rest) := by
  rw [members, nextMember, skipBlanks_cons (by decide)]
  rfl

/-! ## Rules -/

theorem encode_append (r : Rule) (rest : Bytes) :
    r.encode ++ rest = openObject ::
      (memberLead true ++ (encodeMember Field.inputs.key r.inputs ++
        (memberLead false ++ (encodeMember Field.task.key r.task ++
          (memberLead false ++ (encodeMember Field.outputs.key r.outputs ++
            closeObject :: rest)))))) := by
  simp [encode, commas, memberLead, Field.key]

/-- A written rule is read as the rule that it was, whatever follows it. -/
theorem read_encode (r : Rule) (rest : Bytes) : read (r.encode ++ rest) = .ok (r, rest) := by
  rw [encode_append, read, skipBlanks_cons (by decide)]
  dsimp only
  rw [if_neg (by decide), if_pos rfl]
  -- Four rounds are enough: one for each member and one for the bracket.
  generalize hbody : memberLead true ++ _ = body
  obtain ⟨fuel, hfuel⟩ : ∃ fuel, body.length + 1 = fuel + 1 + 1 + 1 + 1 := by
    refine ⟨body.length - 3, ?_⟩
    have : 3 ≤ body.length := by
      rw [← hbody]
      simp only [List.length_append, encodeMember, quote, List.length_cons]
      omega
    omega
  rw [hfuel, ← hbody, members_member rfl, members_member rfl, members_member rfl, members_close]
  rfl

theorem printed_encode : Printed read encode where
  read := read_encode
  start r := ⟨openObject, _, rfl, by decide, by decide⟩

/-! ## Lines -/

theorem mem_commas {b : UInt8} {parts : List Bytes} (h : b ∈ commas parts) :
    b = commaByte ∨ ∃ part ∈ parts, b ∈ part := by
  induction parts with
  | nil => cases h
  | cons part parts ih =>
    cases parts with
    | nil => exact .inr ⟨part, List.mem_cons_self, h⟩
    | cons next parts =>
      rcases List.mem_append.1 h with h | h
      · exact .inr ⟨part, List.mem_cons_self, h⟩
      · rcases List.mem_cons.1 h with h | h
        · exact .inl h
        · rcases ih h with h | ⟨part, hpart, hb⟩
          · exact .inl h
          · exact .inr ⟨part, List.mem_cons_of_mem _ hpart, hb⟩

theorem printable_of_mem_encodeMember {key : String} {items : List String} {b : UInt8}
    (h : b ∈ encodeMember key items) : 0x20 ≤ b := by
  rcases List.mem_append.1 h with h | h
  · exact printable_of_mem_quote h
  · simp only [encodeList, List.mem_cons, List.mem_append, List.not_mem_nil, or_false] at h
    rcases h with rfl | rfl | h | rfl
    · decide
    · decide
    · rcases mem_commas h with rfl | ⟨part, hpart, hb⟩
      · decide
      · obtain ⟨s, -, rfl⟩ := List.mem_map.1 hpart
        exact printable_of_mem_quote hb
    · decide

theorem printable_of_mem_encode {r : Rule} {b : UInt8} (h : b ∈ r.encode) : 0x20 ≤ b := by
  simp only [encode, List.mem_cons, List.mem_append, List.not_mem_nil, or_false] at h
  rcases h with rfl | h | rfl
  · decide
  · rcases mem_commas h with rfl | ⟨part, hpart, hb⟩
    · decide
    · simp only [List.mem_cons, List.not_mem_nil, or_false] at hpart
      rcases hpart with rfl | rfl | rfl
      all_goals exact printable_of_mem_encodeMember hb
  · decide

end BuildScript.Rule
