import Mathlib.Data.List.DropRight

namespace Initd.Library.Lines

variable {Char : Type} [DecidableEq Char] (newline : Char)

/-! The lines of a text around a place in it: `before` stands before the place,
`after` behind it. -/

/-- The places behind the newlines. -/
def breaks (pos : Nat) : List Char → List Nat
  | [] => []
  | c :: rest =>
      if c = newline then
        (pos + 1) :: breaks (pos + 1) rest
      else
        breaks (pos + 1) rest

/-- How far the start of its line is before the place. -/
def column (before : List Char) : Nat :=
  (before.rtakeWhile (· ≠ newline)).length

/-- How far the end of its line is behind the place. -/
def remaining (after : List Char) : Nat :=
  (after.takeWhile (· ≠ newline)).length

theorem column_le (before : List Char) :
    column newline before ≤ before.length :=
  (List.rtakeWhile_suffix _ before).length_le

theorem remaining_le (after : List Char) :
    remaining newline after ≤ after.length :=
  (List.takeWhile_prefix _).length_le

@[simp] theorem column_append_newline (before : List Char) :
    column newline (before ++ [newline]) = 0 := by
  rw [column, List.rtakeWhile_concat_neg]
  · rfl
  · simp

@[simp] theorem column_append_other {c : Char} (other : c ≠ newline)
    (before : List Char) :
    column newline (before ++ [c]) = column newline before + 1 := by
  rw [column, List.rtakeWhile_concat_pos _ _ _ (by simpa), List.length_append]
  rfl

@[simp] theorem remaining_newline (after : List Char) :
    remaining newline (newline :: after) = 0 := by
  simp [remaining]

@[simp] theorem remaining_other {c : Char} (other : c ≠ newline)
    (after : List Char) :
    remaining newline (c :: after) = remaining newline after + 1 := by
  simp [remaining, other]

theorem newline_notMem_drop (before : List Char) :
    newline ∉ before.drop (before.length - column newline before) := by
  have line := List.suffix_iff_eq_drop.mp
    (List.rtakeWhile_suffix (· ≠ newline) before)
  rw [column, ← line]
  intro member
  have other := List.mem_rtakeWhile_imp member
  simp at other

/-- A line starts with the text, or behind a newline. -/
theorem getElem?_column {before : List Char}
    (later : column newline before < before.length) :
    before[before.length - column newline before - 1]? = some newline := by
  induction before using List.reverseRecOn with
  | nil => exact absurd later (Nat.not_lt_zero _)
  | append_singleton before c induction =>
      by_cases same : c = newline
      · rw [same, column_append_newline]
        simp
      · rw [column_append_other _ same, List.length_append] at later ⊢
        have shorter : column newline before < before.length := by
          simpa using later
        have place : before.length + [c].length - (column newline before + 1) - 1 =
            before.length - column newline before - 1 := by
          rw [List.length_singleton]
          omega
        rw [place, List.getElem?_append_left (by omega)]
        exact induction shorter

theorem newline_notMem_take (after : List Char) :
    newline ∉ after.take (remaining newline after) := by
  have line := List.prefix_iff_eq_take.mp
    (List.takeWhile_prefix (· ≠ newline) (l := after))
  rw [remaining, ← line]
  intro member
  have other := List.mem_takeWhile_imp member
  simp at other

theorem getElem?_remaining {after : List Char}
    (more : remaining newline after ≠ after.length) :
    after[remaining newline after]? = some newline := by
  induction after with
  | nil => contradiction
  | cons c after induction =>
      by_cases same : c = newline
      · rw [same, remaining_newline]
        rfl
      · rw [remaining_other _ same, List.length_cons] at more
        rw [remaining_other _ same, List.getElem?_cons_succ]
        exact induction fun same => more (congrArg (· + 1) same)

/-! The breaks of a text. -/

theorem breaks_append (pos : Nat) (before after : List Char) :
    breaks newline pos (before ++ after) =
      breaks newline pos before ++
        breaks newline (pos + before.length) after := by
  induction before generalizing pos with
  | nil => rfl
  | cons c before induction =>
      rw [List.cons_append, breaks, breaks, induction, List.length_cons,
        Nat.add_assoc, Nat.add_comm 1]
      split <;> rfl

@[simp] theorem breaks_length (pos : Nat) (text : List Char) :
    (breaks newline pos text).length = text.count newline := by
  induction text generalizing pos with
  | nil => rfl
  | cons c text induction =>
      rw [breaks, List.count_cons]
      split <;> simp [*]

/-- The breaks before a place are as many as the newlines before it. -/
theorem findIdx_breaks (start pos : Nat) (text : List Char) :
    (breaks newline start text).findIdx (pos < ·) =
      (text.take (pos - start)).count newline := by
  induction text generalizing start with
  | nil => simp [breaks]
  | cons c text induction =>
      have later := induction (start + 1)
      cases distance : pos - start with
      | zero =>
          have none : pos - (start + 1) = 0 := by omega
          have before : pos < start + 1 := by omega
          rw [none] at later
          rw [breaks]
          split
          · simp [List.findIdx_cons, before]
          · exact later
      | succ left =>
          have less : pos - (start + 1) = left := by omega
          have behind : ¬ pos < start + 1 := by omega
          rw [less] at later
          rw [breaks, List.take_succ_cons, List.count_cons]
          split
          · next same => simp [List.findIdx_cons, behind, later, same]
          · next other => simp [later, other]

/-- A line starts behind the last newline before its places. -/
theorem getElem?_line (before : List Char) :
    (0 :: breaks newline 0 before)[before.count newline]? =
      some (before.length - column newline before) := by
  induction before using List.reverseRecOn with
  | nil => rfl
  | append_singleton before c induction =>
      rw [breaks_append, Nat.zero_add, List.count_append, ← List.cons_append]
      by_cases same : c = newline
      · rw [same, column_append_newline, List.getElem?_append_right]
        all_goals simp [breaks]
      · have count : List.count newline [c] = 0 :=
          List.count_eq_zero.mpr fun member =>
            same (List.mem_singleton.mp member).symm
        have inside := (List.getElem?_eq_some_iff.mp induction).1
        rw [column_append_other _ same, count, Nat.add_zero,
          List.getElem?_append_left inside, induction]
        simp

/-- The first break behind a place is that of its own line. -/
theorem getElem?_next (pos : Nat) (after : List Char) :
    (breaks newline pos after)[0]? =
      if remaining newline after = after.length then none
      else some (pos + remaining newline after + 1) := by
  induction after generalizing pos with
  | nil => rfl
  | cons c after induction =>
      rw [breaks]
      by_cases same : c = newline
      · simp [same]
      · rw [if_neg same, induction, remaining_other _ same, List.length_cons]
        simp [Nat.add_assoc, Nat.add_comm 1]

end Initd.Library.Lines
