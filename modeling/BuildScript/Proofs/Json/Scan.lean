import BuildScript.Json.Scan
import BuildScript.Proofs.Json.Quoted
import Mathlib.Data.List.Basic

/-!
# Lists that are written are read back

A list is written with a comma between its elements. Blanks may stand behind the opening
bracket, behind each comma and before the closing bracket.

* `Printed`: what is asked of the elements of a list;
* `elements_intercalate`: what follows an opening bracket is read as the elements;
* `string_quote`: the elements of a list of strings.
-/

namespace BuildScript.Json

/-! ## Blanks -/

/-- Bytes that may stand between values. -/
def Blanks (ws : Bytes) : Prop := ∀ b ∈ ws, isBlank b = true

theorem skipBlanks_append {ws : Bytes} (h : Blanks ws) (bs : Bytes) :
    skipBlanks (ws ++ bs) = skipBlanks bs := List.dropWhile_append_of_pos h

theorem skipBlanks_cons {b : UInt8} (h : isBlank b = false) (bs : Bytes) :
    skipBlanks (b :: bs) = b :: bs := List.dropWhile_cons_of_neg (by simp [h])

theorem nextElement_append {ws : Bytes} (h : Blanks ws) (first : Bool) (bs : Bytes) :
    nextElement first (ws ++ bs) = nextElement first bs := by
  rw [nextElement, skipBlanks_append h, nextElement]

theorem endElements_append {ws : Bytes} (h : Blanks ws) (bs : Bytes) :
    endElements (ws ++ bs) = endElements bs := by
  rw [endElements, skipBlanks_append h, endElements]

theorem nextElement_close (first : Bool) (rest : Bytes) :
    nextElement first (closeList :: rest) = .ok none := by
  rw [nextElement, skipBlanks_cons (by decide)]
  rfl

theorem endElements_close (rest : Bytes) : endElements (closeList :: rest) = .ok rest := by
  rw [endElements, skipBlanks_cons (by decide)]
  rfl

/-! ## Elements -/

section Elements

variable {α : Type} {element : Bytes → Except Fault (α × Bytes)} {print : α → Bytes}

/-- Elements that are read back from the way they are written, whatever follows, and that do
not begin like something else. -/
structure Printed (element : Bytes → Except Fault (α × Bytes)) (print : α → Bytes) : Prop where
  read : ∀ a rest, element (print a ++ rest) = .ok (a, rest)
  start : ∀ a, ∃ b more, print a = b :: more ∧ isBlank b = false ∧ b ≠ closeList

theorem Printed.nextElement_first (h : Printed element print) (a : α) (rest : Bytes) :
    nextElement true (print a ++ rest) = .ok (some (print a ++ rest)) := by
  obtain ⟨b, more, heq, hblank, hclose⟩ := h.start a
  rw [heq, List.cons_append, nextElement, skipBlanks_cons hblank]
  dsimp only
  rw [if_neg hclose]
  rfl

theorem Printed.nextElement_comma (h : Printed element print) {gap : Bytes} (hgap : Blanks gap)
    (a : α) (rest : Bytes) :
    nextElement false (commaByte :: (gap ++ (print a ++ rest))) =
      .ok (some (print a ++ rest)) := by
  obtain ⟨b, more, heq, hblank, hclose⟩ := h.start a
  rw [nextElement, skipBlanks_cons (by decide)]
  dsimp only
  rw [if_neg (by decide), if_neg (by decide), if_pos rfl, skipBlanks_append hgap, heq,
    List.cons_append, skipBlanks_cons hblank]
  dsimp only
  rw [if_neg hclose]

theorem elements_append {ws : Bytes} (h : Blanks ws) (fuel : Nat) (first : Bool) (bs : Bytes) :
    elements element fuel first (ws ++ bs) = elements element fuel first bs := by
  cases fuel with
  | zero => rfl
  | succ fuel => rw [elements, nextElement_append h, endElements_append h, elements]

theorem elements_close {fuel : Nat} {ws : Bytes} (hws : Blanks ws) (first : Bool)
    (rest : Bytes) :
    elements element (fuel + 1) first (ws ++ closeList :: rest) = .ok ([], rest) := by
  rw [elements_append hws, elements, nextElement_close]
  simp only [Except.bind, endElements_close, Except.map]

/-- The elements behind the first, each with its comma. -/
theorem Printed.elements_commas (h : Printed element print) {gap ws : Bytes}
    (hgap : Blanks gap) (hws : Blanks ws) (rest : Bytes) (as : List α) {fuel : Nat}
    (hfuel : as.length < fuel) :
    elements element fuel false
      (as.flatMap (fun a => commaByte :: (gap ++ print a)) ++ (ws ++ closeList :: rest)) =
      .ok (as, rest) := by
  induction as generalizing fuel with
  | nil =>
    obtain ⟨fuel, rfl⟩ := Nat.exists_eq_succ_of_ne_zero (Nat.ne_of_gt hfuel)
    exact elements_close hws false rest
  | cons a as ih =>
    obtain ⟨fuel, rfl⟩ := Nat.exists_eq_succ_of_ne_zero (Nat.ne_of_gt (Nat.zero_lt_of_lt hfuel))
    have hmore := ih (Nat.lt_of_succ_lt_succ hfuel)
    rw [List.flatMap_cons, List.append_assoc, List.cons_append, List.append_assoc, elements,
      h.nextElement_comma hgap]
    simp only [Except.bind, h.read, hmore, Except.map]

/-- The first element has no comma before it. -/
theorem intercalate_map_cons (sep : Bytes) (a : α) (as : List α) :
    List.intercalate sep ((a :: as).map print) =
      print a ++ as.flatMap (fun a => sep ++ print a) := by
  induction as generalizing a with
  | nil => simp [List.intercalate]
  | cons b as ih =>
    rw [List.map_cons, List.map_cons, List.intercalate_cons_cons, ← List.map_cons, ih,
      List.flatMap_cons, List.append_assoc, List.append_assoc]

/-- What stands between the brackets of a written list is read as its elements. -/
theorem Printed.elements_intercalate (h : Printed element print) {lead gap ws : Bytes}
    (hlead : Blanks lead) (hgap : Blanks gap) (hws : Blanks ws) (rest : Bytes) (as : List α)
    {fuel : Nat} (hfuel : as.length < fuel) :
    elements element fuel true
      (lead ++ (List.intercalate (commaByte :: gap) (as.map print) ++
        (ws ++ closeList :: rest))) = .ok (as, rest) := by
  cases as with
  | nil =>
    obtain ⟨fuel, rfl⟩ := Nat.exists_eq_succ_of_ne_zero (Nat.ne_of_gt hfuel)
    have hblanks : Blanks (lead ++ ws) := by
      intro b hb
      exact (List.mem_append.1 hb).elim (hlead b) (hws b)
    have : elements element (fuel + 1) true ((lead ++ ws) ++ closeList :: rest) = .ok ([], rest) :=
      elements_close hblanks true rest
    rwa [List.append_assoc] at this
  | cons a as =>
    obtain ⟨fuel, rfl⟩ := Nat.exists_eq_succ_of_ne_zero (Nat.ne_of_gt (Nat.zero_lt_of_lt hfuel))
    have hmore := h.elements_commas hgap hws rest as (Nat.lt_of_succ_lt_succ hfuel)
    rw [intercalate_map_cons, List.append_assoc, elements, nextElement_append hlead,
      h.nextElement_first]
    simp only [Except.bind, h.read, List.cons_append, hmore, Except.map]

/-- A written list has at least as many bytes as elements. -/
theorem Printed.length_le_intercalate (h : Printed element print) (sep : Bytes)
    (as : List α) : as.length ≤ (List.intercalate sep (as.map print)).length := by
  have hpos : ∀ a, 1 ≤ (print a).length := by
    intro a
    obtain ⟨b, more, heq, -, -⟩ := h.start a
    rw [heq, List.length_cons]
    omega
  have htail : ∀ as : List α, as.length ≤ (as.flatMap fun a => sep ++ print a).length := by
    intro as
    induction as with
    | nil => exact Nat.zero_le _
    | cons a as ih =>
      have := hpos a
      rw [List.flatMap_cons, List.length_append, List.length_append, List.length_cons]
      omega
  cases as with
  | nil => exact Nat.zero_le _
  | cons a as =>
    have h1 := hpos a
    have h2 := htail as
    rw [intercalate_map_cons, List.length_append, List.length_cons]
    omega

/-- A whole list, with anything behind it. -/
theorem Printed.list_intercalate (h : Printed element print) {lead gap ws : Bytes}
    (hlead : Blanks lead) (hgap : Blanks gap) (hws : Blanks ws) (rest : Bytes) (as : List α) :
    list element (openList :: (lead ++ (List.intercalate (commaByte :: gap) (as.map print) ++
      (ws ++ closeList :: rest)))) = .ok (as, rest) := by
  rw [list, skipBlanks_cons (by decide)]
  dsimp only
  rw [if_pos rfl]
  apply h.elements_intercalate hlead hgap hws
  have := h.length_le_intercalate (commaByte :: gap) as
  simp only [List.length_append]
  omega

end Elements

/-! ## Strings -/

theorem string_quote (s : String) (rest : Bytes) : string (quote s ++ rest) = .ok (s, rest) := by
  rw [quote_append, string, skipBlanks_cons (by decide)]
  dsimp only
  rw [if_pos rfl, text_quote]

theorem printed_quote : Printed string quote where
  read := string_quote
  start s := ⟨quoteByte, _, rfl, by decide, by decide⟩

end BuildScript.Json
