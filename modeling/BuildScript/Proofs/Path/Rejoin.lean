import BuildScript.Proofs.Path.Absolute
import Mathlib.Logic.Function.Iterate

/-!
# A path taken apart and joined back

Splitting a path again and again takes its last segments off, one by one, until only the root is
left: the separators it begins with. Joined behind the root, the segments are the path again, with
one separator for each of the other runs. One split keeps the root and the path that is joined back,
so any number of splits does.

* `Style.tails`: the segments that splits take off;
* `Style.collapse`: a path with one separator for each run behind the root;
* `Style.takeWhile_dirname`, `Style.join_collapse`, `Style.length_dirname_lt`: one split;
* `Style.takeWhile_iterate`, `Style.joinAll_tails`, `Style.exists_iterate_isSep`: any number of
  splits;
* `Style.joinAll_root_tails`: the main result.
-/

namespace BuildScript.Path.Style

variable {style : Style}

/-! ## Definitions -/

/-- The last segments that so many splits take off a path, in the order of the path. -/
def tails (style : Style) : Nat → Bytes → List Bytes
  | 0, _ => []
  | n + 1, path => style.tails n (style.dirname path) ++ [style.basename path]

/-- One separator, as `join` puts it in, for each run of separators. -/
def squeeze (style : Style) : Bytes → Bytes
  | [] => []
  | b :: rest =>
    if style.isSep b then
      if rest.head?.any style.isSep then style.squeeze rest
      else style.separator :: style.squeeze rest
    else b :: style.squeeze rest

/-- One separator for each run of separators other than the one that the path begins with. -/
def collapse (style : Style) (path : Bytes) : Bytes :=
  path.takeWhile style.isSep ++ style.squeeze (path.dropWhile style.isSep)

/-! ## Runs of separators -/

theorem squeeze_segment {name : Bytes} (h : ∀ b ∈ name, style.isSep b = false) :
    style.squeeze name = name := by
  induction name with
  | nil => rfl
  | cons b name ih =>
    rw [squeeze, if_neg (by simp [h b]), ih fun c hc => h c (List.mem_cons_of_mem _ hc)]

/-- A run in front of a segment. -/
theorem squeeze_run {seps name : Bytes} (hne : seps ≠ [])
    (hseps : ∀ b ∈ seps, style.isSep b = true) (hname : ∀ b ∈ name, style.isSep b = false) :
    style.squeeze (seps ++ name) = style.separator :: name := by
  induction seps with
  | nil => exact absurd rfl hne
  | cons b seps ih =>
    have hb := hseps b List.mem_cons_self
    have hrest : ∀ c ∈ seps, style.isSep c = true := fun c hc =>
      hseps c (List.mem_cons_of_mem _ hc)
    rw [List.cons_append, squeeze, if_pos hb]
    cases seps with
    | nil =>
      have hhead : name.head?.any style.isSep = false := by
        cases name with
        | nil => rfl
        | cons c name => exact hname c List.mem_cons_self
      rw [List.nil_append, if_neg (by simp [hhead]), squeeze_segment hname]
    | cons c seps =>
      have hc : style.isSep c = true := hrest c List.mem_cons_self
      rw [if_pos (by simpa using hc), ih (List.cons_ne_nil _ _) hrest]

/-- No run goes beyond a byte that does not separate. -/
theorem squeeze_append_cons {b : UInt8} (hb : style.isSep b = false) (front back : Bytes) :
    style.squeeze (front ++ b :: back) = style.squeeze front ++ b :: style.squeeze back := by
  induction front with
  | nil => simp [squeeze, hb]
  | cons c front ih =>
    have hhead : (front ++ b :: back).head?.any style.isSep = front.head?.any style.isSep := by
      cases front with
      | nil => simpa using hb
      | cons d front => rfl
    rw [List.cons_append, squeeze, squeeze, hhead, ih]
    split_ifs <;> rfl

theorem takeWhile_append_cons {b : UInt8} (hb : style.isSep b = false) (front back : Bytes) :
    (front ++ b :: back).takeWhile style.isSep = front.takeWhile style.isSep := by
  induction front with
  | nil => simp [hb]
  | cons c front ih => rw [List.cons_append, List.takeWhile_cons, List.takeWhile_cons, ih]

theorem dropWhile_append_cons {b : UInt8} (hb : style.isSep b = false) (front back : Bytes) :
    (front ++ b :: back).dropWhile style.isSep = front.dropWhile style.isSep ++ b :: back := by
  induction front with
  | nil => simp [hb]
  | cons c front ih =>
    rw [List.cons_append, List.dropWhile_cons, List.dropWhile_cons, ih]
    split <;> rfl

theorem collapse_append_cons {b : UInt8} (hb : style.isSep b = false) (front back : Bytes) :
    style.collapse (front ++ b :: back) = style.collapse front ++ b :: style.squeeze back := by
  rw [collapse, takeWhile_append_cons hb, dropWhile_append_cons hb, squeeze_append_cons hb,
    ← List.append_assoc, collapse]

/-- A segment right behind the root. -/
theorem takeWhile_root {root name : Bytes} (hroot : ∀ b ∈ root, style.isSep b = true)
    (hname : ∀ b ∈ name, style.isSep b = false) :
    (root ++ name).takeWhile style.isSep = root := by
  rw [List.takeWhile_append_of_pos hroot]
  cases name with
  | nil => simp
  | cons b name => simp [hname b List.mem_cons_self]

theorem collapse_root_append {root name : Bytes} (hroot : ∀ b ∈ root, style.isSep b = true)
    (hname : ∀ b ∈ name, style.isSep b = false) :
    style.collapse (root ++ name) = root ++ name := by
  have hdrop : (root ++ name).dropWhile style.isSep = name := by
    have happend := List.takeWhile_append_dropWhile (p := style.isSep) (l := root ++ name)
    rw [takeWhile_root hroot hname] at happend
    exact List.append_cancel_left happend
  rw [collapse, takeWhile_root hroot hname, hdrop, squeeze_segment hname]

theorem collapse_root {root : Bytes} (h : ∀ b ∈ root, style.isSep b = true) :
    style.collapse root = root := by
  have happend := collapse_root_append h (List.forall_mem_nil fun b => style.isSep b = false)
  rwa [List.append_nil] at happend

/-! ## One split -/

/-- Either separators are taken away behind a directory that ends in something else, or the
directory is the root and the last segment is right behind it. -/
theorem dirname_shape (style : Style) (path : Bytes) :
    (∃ front b seps, style.isSep b = false ∧ seps ≠ [] ∧ (∀ c ∈ seps, style.isSep c = true) ∧
      style.dirname path = front ++ [b] ∧ path = front ++ b :: (seps ++ style.basename path)) ∨
    ((∀ c ∈ style.dirname path, style.isSep c = true) ∧
      path = style.dirname path ++ style.basename path) := by
  obtain ⟨seps, hcut⟩ := style.split_cut path
  have hpath : path = style.dirname path ++ seps ++ style.basename path := hcut.path_eq
  obtain ⟨hne, hneeds⟩ | ⟨rfl, hroot⟩ := hcut.head
  · obtain ⟨front, b, hdir, hb⟩ := needsSep_iff.1 hneeds
    refine .inl ⟨front, b, seps, hb, hne, hcut.isSep_seps, hdir, ?_⟩
    conv_lhs => rw [hpath, dirname, hdir]
    simp only [List.append_assoc, List.cons_append, List.nil_append]
  · rw [List.append_nil] at hpath
    exact .inr ⟨hroot, hpath⟩

theorem isSep_basename (style : Style) (path : Bytes) :
    ∀ b ∈ style.basename path, style.isSep b = false := fun _ => isSep_of_mem_segment

/-- A split keeps the root. -/
theorem takeWhile_dirname (style : Style) (path : Bytes) :
    (style.dirname path).takeWhile style.isSep = path.takeWhile style.isSep := by
  obtain ⟨front, b, seps, hb, -, -, hdir, hpath⟩ | ⟨hroot, hpath⟩ := style.dirname_shape path
  · conv_rhs => rw [hpath, takeWhile_append_cons hb]
    rw [hdir, takeWhile_append_cons hb]
  · conv_rhs => rw [hpath, takeWhile_root hroot (style.isSep_basename path)]
    exact List.takeWhile_eq_self_iff.2 hroot

/-- What a split takes apart is joined again, with one separator. -/
theorem join_collapse (style : Style) (path : Bytes) :
    style.join (style.collapse (style.dirname path)) (style.basename path) =
      style.collapse path := by
  have hname := style.isSep_basename path
  rw [join_of_not_isAbsolute (isAbsolute_segment hname)]
  obtain ⟨front, b, seps, hb, hne, hseps, hdir, hpath⟩ | ⟨hroot, hpath⟩ := style.dirname_shape path
  · have hcollapse : style.collapse (style.dirname path) = style.collapse front ++ [b] := by
      rw [hdir, collapse_append_cons hb]
      rfl
    have hneeds : style.needsSep (style.collapse front ++ [b]) = true :=
      needsSep_iff.2 ⟨_, b, rfl, hb⟩
    conv_rhs => rw [hpath, collapse_append_cons hb, squeeze_run hne hseps hname]
    rw [hcollapse, if_pos hneeds]
    simp only [List.append_assoc, List.singleton_append]
  · conv_rhs => rw [hpath, collapse_root_append hroot hname]
    rw [collapse_root hroot, if_neg (by simp [needsSep_root hroot]), List.nil_append]

/-- As long as there is more than a root, a split takes something away. -/
theorem length_dirname_lt {path : Bytes} (h : ¬∀ b ∈ path, style.isSep b = true) :
    (style.dirname path).length < path.length := by
  obtain ⟨front, b, seps, -, hne, -, hdir, hpath⟩ | ⟨hroot, hpath⟩ := style.dirname_shape path
  · have hseps := List.length_pos_iff.2 hne
    have hlength := congrArg List.length hpath
    simp only [List.length_append, List.length_cons] at hlength
    rw [hdir, List.length_append, List.length_singleton]
    omega
  · have hname : style.basename path ≠ [] := by
      intro hnil
      rw [hnil, List.append_nil] at hpath
      exact h (hpath ▸ hroot)
    have hlength := congrArg List.length hpath
    rw [List.length_append] at hlength
    have hpos := List.length_pos_iff.2 hname
    omega

/-- The root is split into itself and nothing. -/
theorem split_root {root : Bytes} (h : ∀ b ∈ root, style.isSep b = true) :
    style.split root = ⟨root, []⟩ := by
  have hcut : style.Cut root [] ⟨root, []⟩ := ⟨by simp, by simp, by simp, .inr ⟨rfl, h⟩⟩
  exact hcut.split_eq

/-! ## Any number of splits -/

theorem isSep_of_mem_tails {n : Nat} {path tail : Bytes} (h : tail ∈ style.tails n path) :
    ∀ b ∈ tail, style.isSep b = false := by
  induction n generalizing path with
  | zero => cases h
  | succ n ih =>
    obtain h | h := List.mem_append.1 h
    · exact ih h
    · rw [List.mem_singleton.1 h]
      exact style.isSep_basename path

theorem takeWhile_iterate (n : Nat) (path : Bytes) :
    (style.dirname^[n] path).takeWhile style.isSep = path.takeWhile style.isSep := by
  induction n with
  | zero => rfl
  | succ n ih => rw [Function.iterate_succ_apply', takeWhile_dirname, ih]

/-- What splits have taken off makes the path again. -/
theorem joinAll_tails (n : Nat) (path : Bytes) :
    style.joinAll (style.collapse (style.dirname^[n] path) :: style.tails n path) =
      style.collapse path := by
  induction n generalizing path with
  | zero => rw [tails, joinAll_singleton, Function.iterate_zero_apply]
  | succ n ih =>
    rw [Function.iterate_succ_apply, tails, joinAll_cons_append, ih, joinAll_cons,
      List.foldl_cons, List.foldl_nil, join_collapse]

/-- Splits come to the root, and change the path until then. -/
theorem exists_iterate_isSep (style : Style) (path : Bytes) :
    ∃ splits ≤ path.length,
      (∀ n < splits, style.dirname (style.dirname^[n] path) ≠ style.dirname^[n] path) ∧
        ∀ b ∈ style.dirname^[splits] path, style.isSep b = true := by
  induction hlength : path.length using Nat.strong_induction_on generalizing path with
  | _ length ih =>
    by_cases hroot : ∀ b ∈ path, style.isSep b = true
    · exact ⟨0, Nat.zero_le _, by simp, hroot⟩
    have hlt := length_dirname_lt hroot
    obtain ⟨splits, hle, hchange, hend⟩ := ih _ (hlength ▸ hlt) (style.dirname path) rfl
    refine ⟨splits + 1, by omega, ?_, hend⟩
    intro n hn
    cases n with
    | zero => exact fun hsame => hlt.ne (congrArg List.length hsame)
    | succ n =>
      rw [Function.iterate_succ_apply]
      exact hchange n (by omega)

/-- Joining never drops what is there where no name is absolute. -/
theorem joinAll_startsWith {dir : Bytes} {names : List Bytes}
    (h : ∀ name ∈ names, style.isAbsolute name = false) :
    dir <+: style.joinAll (dir :: names) := by
  rw [joinAll_cons]
  induction names generalizing dir with
  | nil => exact List.prefix_rfl
  | cons name names ih =>
    have hjoin : dir <+: style.join dir name := by
      rw [join_of_not_isAbsolute (h name List.mem_cons_self)]
      exact List.prefix_append _ _
    rw [List.foldl_cons]
    exact hjoin.trans (ih fun c hc => h c (List.mem_cons_of_mem _ hc))

/-- Splitting a path until it no longer changes takes no more splits than the path has bytes. What
is left is the run of separators that the path begins with, and splits into itself and nothing. The
segments that were taken off, joined behind it in their order, are the path with one separator for
each of its other runs. No segment is absolute, so no join drops what is there. -/
theorem joinAll_root_tails (style : Style) (path : Bytes) :
    ∃ splits ≤ path.length,
      let root := style.dirname^[splits] path
      let tails := style.tails splits path
      (∀ n < splits, style.dirname (style.dirname^[n] path) ≠ style.dirname^[n] path) ∧
      style.split root = ⟨root, []⟩ ∧
      (∀ b ∈ root, style.isSep b = true) ∧ root = path.takeWhile style.isSep ∧
      style.joinAll (root :: tails) = style.collapse path ∧
      (∀ tail ∈ tails, style.isAbsolute tail = false) ∧
      ∀ front back, tails = front ++ back →
        style.joinAll (root :: front) <+: style.joinAll (root :: tails) := by
  obtain ⟨splits, hle, hchange, hend⟩ := style.exists_iterate_isSep path
  refine ⟨splits, hle, ?_⟩
  intro root tails
  have hkept : root.takeWhile style.isSep = path.takeWhile style.isSep :=
    takeWhile_iterate splits path
  have hroot : root.takeWhile style.isSep = root := List.takeWhile_eq_self_iff.2 hend
  have htails : ∀ tail ∈ tails, style.isAbsolute tail = false := fun tail htail =>
    isAbsolute_segment (isSep_of_mem_tails htail)
  have hjoined : style.joinAll (style.collapse root :: tails) = style.collapse path :=
    joinAll_tails splits path
  rw [collapse_root hend] at hjoined
  refine ⟨hchange, split_root hend, hend, hroot.symm.trans hkept, hjoined, htails, ?_⟩
  intro front back heq
  rw [heq, joinAll_cons_append]
  exact joinAll_startsWith fun tail htail => htails tail (by simp [heq, htail])

example : windows.dirname^[3] (Bytes.ofAscii "C:/\\a//") = [] ∧
    windows.tails 3 (Bytes.ofAscii "C:/\\a//") = [Bytes.ofAscii "C:", Bytes.ofAscii "a", []] ∧
    windows.collapse (Bytes.ofAscii "C:/\\a//") = Bytes.ofAscii "C:\\a\\" := by decide

end BuildScript.Path.Style
