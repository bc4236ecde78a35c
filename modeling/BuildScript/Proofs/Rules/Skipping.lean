import BuildScript.Proofs.Rules.Stream

/-!
# Skipping a list of rules

A reader that skips values goes through rules one by one. Where the list is closed it comes to what
follows, and where it is not, to the end of the text inside of it, so an open list is no document.

* `Skips`, `SkipsBehind`: what becomes of a reader in front of a text;
* `Skips.quote`, `Skips.openList`, …: what may stand in front of such a text without a change;
* `Rule.skips_encode`: a rule in front of such a text;
* `RuleStream.skipValue_document`, `RuleStream.unfinished_unclosed`: the text of a list that is
  closed, and of one that is open.
-/

namespace BuildScript.Json

/-! ## What becomes of a reader -/

/-- How a reader goes on when it has left what ends in front of it. -/
def goOn (fuel : Nat) (left : Except Fault (List Enclosing × Bytes)) : Except Fault Bytes :=
  left.bind fun
    | ([], rest) => .ok rest
    | (enclosing, rest) => skipValues fuel enclosing rest

/-- Where values are skipped from here on until all that encloses them is closed, this is what
follows, or what is wrong. -/
def Skips (result : Except Fault Bytes) (enclosing : List Enclosing) (bs : Bytes) : Prop :=
  ∀ fuel, bs.length < fuel → skipValues fuel enclosing bs = result

/-- The same, behind a value or behind an opening bracket. -/
def SkipsBehind (result : Except Fault Bytes) (enclosing : List Enclosing) (afterValue : Bool)
    (bs : Bytes) : Prop :=
  ∀ fuel, bs.length < fuel → goOn fuel (leave enclosing afterValue bs) = result

variable {result : Except Fault Bytes}
variable {enclosing : List Enclosing} {e : Enclosing} {afterValue : Bool} {bs rest : Bytes}

theorem skipString_plain {bs : Bytes} (h : ∀ b ∈ bs, Plain b) (rest : Bytes) :
    skipString (bs ++ rest) = skipString rest := by
  induction bs with
  | nil => rfl
  | cons b bs ih =>
    obtain ⟨hquote, hescape, hblank⟩ := h b List.mem_cons_self
    rw [List.cons_append, skipString.eq_def]
    dsimp only
    rw [if_neg hquote, if_neg hescape, if_neg (UInt8.not_lt.2 hblank)]
    exact ih fun c hc => h c (List.mem_cons_of_mem b hc)

theorem skipString_escape (c : Char) (rest : Bytes) :
    skipString (escape c ++ rest) = skipString rest := by
  rcases escape_cases c with ⟨letter, hmem, heq⟩ | ⟨hlt, heq⟩ | ⟨hplain, heq⟩
  · obtain ⟨hu, hshort, -⟩ := shortEscape?_of_mem hmem
    rw [heq, List.cons_append, skipString.eq_def]
    dsimp only [List.cons_append, List.nil_append]
    rw [if_neg (by decide), if_pos rfl, if_neg hu, hshort]
    rfl
  · rw [heq, List.cons_append, skipString.eq_def]
    dsimp only [List.cons_append, List.nil_append]
    rw [if_neg (by decide), if_pos rfl, if_pos rfl, hexWord?_of_lt hlt]
    rfl
  · rw [heq, skipString_plain hplain]

theorem skipString_quoted (cs : List Char) (rest : Bytes) :
    skipString (cs.flatMap escape ++ quoteByte :: rest) = .ok rest := by
  induction cs with
  | nil =>
    rw [List.flatMap_nil, List.nil_append, skipString.eq_def]
    rfl
  | cons c cs ih => rw [List.flatMap_cons, List.append_assoc, skipString_escape, ih]

/-! ## What may stand in front of a text -/

theorem length_lt_of_append {ws : Bytes} {fuel : Nat} (h : (ws ++ bs).length < fuel) :
    bs.length < fuel := by
  rw [List.length_append] at h
  omega

namespace Skips

theorem blanks {ws : Bytes} (hws : Blanks ws) (h : Skips result enclosing bs) :
    Skips result enclosing (ws ++ bs) := by
  intro fuel hfuel
  rw [← h fuel (length_lt_of_append hfuel)]
  cases fuel with
  | zero => rfl
  | succ fuel => rw [skipValues, skipBlanks_append hws, skipValues]

theorem openList (h : SkipsBehind result (.list :: enclosing) false rest) :
    Skips result enclosing (openList :: rest) := by
  rintro (_ | fuel) hfuel
  · cases hfuel
  · rw [skipValues, skipBlanks_cons (by decide)]
    exact h fuel (Nat.lt_of_succ_lt_succ hfuel)

theorem openObject (h : SkipsBehind result (.object :: enclosing) false rest) :
    Skips result enclosing (openObject :: rest) := by
  rintro (_ | fuel) hfuel
  · cases hfuel
  · rw [skipValues, skipBlanks_cons (by decide)]
    exact h fuel (Nat.lt_of_succ_lt_succ hfuel)

theorem quote (s : String) (h : SkipsBehind result enclosing true rest) :
    Skips result enclosing (quote s ++ rest) := by
  rintro (_ | fuel) hfuel
  · cases hfuel
  · have hscalar : skipScalar quoteByte (s.toList.flatMap escape ++ quoteByte :: rest) =
        .ok rest := skipString_quoted s.toList rest
    rw [quote_append] at hfuel ⊢
    rw [skipValues, skipBlanks_cons (by decide)]
    dsimp only
    rw [if_neg (by decide), if_neg (by decide), hscalar]
    refine h fuel ?_
    simp only [List.length_cons, List.length_append] at hfuel
    omega

end Skips

namespace SkipsBehind

theorem closed : SkipsBehind (.ok rest) [] afterValue rest := fun _ _ => rfl

theorem ended : SkipsBehind (.error .ended) (e :: enclosing) afterValue [] := fun _ _ => rfl

theorem blanks {ws : Bytes} (hws : Blanks ws)
    (h : SkipsBehind result (e :: enclosing) afterValue bs) :
    SkipsBehind result (e :: enclosing) afterValue (ws ++ bs) := by
  intro fuel hfuel
  rw [← h fuel (length_lt_of_append hfuel), leave, skipBlanks_append hws, leave]

theorem isBlank_close (e : Enclosing) : isBlank e.close = false := by cases e <;> rfl

theorem close (h : SkipsBehind result enclosing true rest) :
    SkipsBehind result (e :: enclosing) afterValue (e.close :: rest) := by
  intro fuel hfuel
  rw [leave, skipBlanks_cons (isBlank_close e)]
  dsimp only
  rw [if_pos rfl]
  exact h fuel (Nat.lt_of_succ_lt hfuel)

theorem first {b : UInt8} (hblank : isBlank b = false) (hclose : b ≠ closeList)
    (h : Skips result (.list :: enclosing) (b :: rest)) :
    SkipsBehind result (.list :: enclosing) false (b :: rest) := by
  intro fuel hfuel
  have hstays : b ≠ Enclosing.list.close := hclose
  rw [leave, skipBlanks_cons hblank]
  dsimp only
  rw [if_neg hstays]
  exact h fuel hfuel

theorem comma (h : Skips result (.list :: enclosing) rest) :
    SkipsBehind result (.list :: enclosing) true (commaByte :: rest) := by
  intro fuel hfuel
  rw [leave, skipBlanks_cons (by decide)]
  exact h fuel (Nat.lt_of_succ_lt hfuel)

end SkipsBehind

/-! ## Lists -/

section Lists

variable {α : Type} {element : Bytes → Except Fault (α × Bytes)} {print : α → Bytes}

/-- The elements behind the first, each with its comma. -/
theorem SkipsBehind.commas
    (hskip : ∀ a rest, SkipsBehind result (.list :: enclosing) true rest →
      Skips result (.list :: enclosing) (print a ++ rest))
    {gap : Bytes} (hgap : Blanks gap) (as : List α)
    (h : SkipsBehind result (.list :: enclosing) true rest) :
    SkipsBehind result (.list :: enclosing) true
      (as.flatMap (fun a => commaByte :: (gap ++ print a)) ++ rest) := by
  induction as with
  | nil => exact h
  | cons a as ih =>
    rw [List.flatMap_cons, List.append_assoc, List.cons_append, List.append_assoc]
    exact .comma (.blanks hgap (hskip a _ ih))

/-- What follows an opening bracket. -/
theorem SkipsBehind.intercalate (hprinted : Printed element print)
    (hskip : ∀ a rest, SkipsBehind result (.list :: enclosing) true rest →
      Skips result (.list :: enclosing) (print a ++ rest))
    {gap : Bytes} (hgap : Blanks gap) (as : List α)
    (h : ∀ afterValue, SkipsBehind result (.list :: enclosing) afterValue rest) :
    SkipsBehind result (.list :: enclosing) false
      (List.intercalate (commaByte :: gap) (as.map print) ++ rest) := by
  cases as with
  | nil => exact h false
  | cons a as =>
    have hmore := hskip a _ (.commas hskip hgap as (h true))
    obtain ⟨b, more, heq, hblank, hclose⟩ := hprinted.start a
    rw [intercalate_map_cons, List.append_assoc]
    simp only [List.cons_append]
    rw [heq, List.cons_append] at hmore ⊢
    exact .first hblank hclose hmore

end Lists

end BuildScript.Json

namespace BuildScript

open Json

namespace Rule

variable {result : Except Fault Bytes} {enclosing : List Enclosing} {rest : Bytes}

/-! ## Rules -/

theorem skips_encodeList (items : List String) (h : SkipsBehind result enclosing true rest) :
    Skips result enclosing (encodeList items ++ rest) := by
  have hclose : ∀ afterValue,
      SkipsBehind result (.list :: enclosing) afterValue (closeList :: rest) := fun _ => .close h
  have hitems := SkipsBehind.intercalate printed_quote (fun s _ => Skips.quote s)
    blanks_nil items hclose
  rw [encodeList, commas_eq_intercalate, List.cons_append, List.append_assoc]
  exact .openList hitems

theorem skipKey_encodeMember (key : String) (items : List String) (rest : Bytes) :
    skipKey (encodeMember key items ++ rest) = .ok (encodeList items ++ rest) := by
  rw [encodeMember, List.append_assoc, quote_append, skipKey, skipBlanks_cons (by decide)]
  dsimp only
  rw [if_pos rfl, skipString_quoted]
  simp only [Except.bind, List.cons_append]
  rw [skipBlanks_cons (by decide)]
  rfl

theorem skips_member (first : Bool) (key : String) (items : List String)
    (h : SkipsBehind result (.object :: enclosing) true rest) :
    SkipsBehind result (.object :: enclosing) (!first)
      (memberLead first ++ (encodeMember key items ++ rest)) := by
  have hkey := skipKey_encodeMember key items rest
  have hleave : leave (.object :: enclosing) (!first)
      (memberLead first ++ (encodeMember key items ++ rest)) =
      .ok (.object :: enclosing, encodeList items ++ rest) := by
    cases first with
    | false =>
      rw [memberLead, if_neg Bool.false_ne_true, List.singleton_append, leave,
        skipBlanks_cons (by decide)]
      change (skipKey (encodeMember key items ++ rest)).map (Enclosing.object :: enclosing, ·) = _
      rw [hkey]
      rfl
    | true =>
      rw [encodeMember, List.append_assoc, quote_append] at hkey ⊢
      rw [memberLead, if_pos rfl, List.nil_append, leave, skipBlanks_cons (by decide)]
      change (skipKey (quoteByte :: _)).map (Enclosing.object :: enclosing, ·) = _
      rw [hkey]
      rfl
  intro fuel hfuel
  rw [hleave]
  refine skips_encodeList items h fuel ?_
  simp only [encodeMember, List.length_append, List.length_cons] at hfuel ⊢
  omega

/-- A rule in front of such a text. -/
theorem skips_encode (r : Rule) (h : SkipsBehind result enclosing true rest) :
    Skips result enclosing (r.encode ++ rest) := by
  rw [encode_append]
  apply Skips.openObject
  apply skips_member true
  apply skips_member false
  apply skips_member false
  exact .close h

end Rule

namespace RuleStream

variable {result : Except Fault Bytes} {rest : Bytes}

/-- A list of rules in front of such a text. -/
theorem skips_unfinished (rules : List Rule)
    (h : ∀ afterValue, SkipsBehind result [.list] afterValue rest) :
    Skips result [] (unfinished rules ++ rest) := by
  have hrules := SkipsBehind.intercalate Rule.printed_encode (fun r _ => Rule.skips_encode r)
    blanks_newline rules h
  rw [unfinished, opening_eq, separator_eq, List.append_assoc]
  exact .openList (.blanks blanks_newline hrules)

/-- A finished list is a document, with the end of its last line behind it. -/
theorem skipValue_document (rules : List Rule) :
    skipValue (document rules) = .ok [newline] := by
  have hend : ∀ afterValue, SkipsBehind (.ok [newline]) [.list] afterValue
      ((if rules.isEmpty then [] else lastLineEnd) ++ closing) := by
    intro afterValue
    have hclose : SkipsBehind (.ok [newline]) [.list] afterValue closing :=
      .close SkipsBehind.closed
    split
    · exact hclose
    · exact .blanks blanks_newline hclose
  exact skips_unfinished rules hend _ (Nat.lt_succ_self _)

/-- An open list, whatever rules stand in it, is no document: the text ends too early. -/
theorem unfinished_unclosed (rules : List Rule) :
    skipValue (unfinished rules) = .error .ended := by
  have hopen : Skips (.error .ended) [] (unfinished rules ++ []) :=
    skips_unfinished rules fun _ => .ended
  rw [List.append_nil] at hopen
  exact hopen _ (Nat.lt_succ_self _)

/-- So it is not the text of any list that is finished. -/
theorem unfinished_ne_document (rules others : List Rule) : unfinished rules ≠ document others := by
  intro heq
  have hopen := unfinished_unclosed rules
  rw [heq, skipValue_document] at hopen
  cases hopen

end RuleStream

end BuildScript
