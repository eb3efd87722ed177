import Initd.LineMap.Position

namespace Initd

open Library

/-! The line and the column of a place, without a conversion. -/

/-- The byte after the last newline before a place, or the start of the
file. -/
structure StartsLine (text : Bytes) (pos start : Nat) : Prop where
  start_le : start ≤ pos
  first : start = 0 ∨ text[start - 1]? = some '\n'.toUInt8
  oneLine : '\n'.toUInt8 ∉ (text.take pos).drop start

/-- The lexicographic order of lines and columns. -/
def LineColumn.Before (first second : LineColumn) : Prop :=
  first.line < second.line ∨
    first.line = second.line ∧ first.column < second.column

namespace LineMap

/-- What is said about a place: its line, its column, and the range of the
line. -/
structure Locates (text : Bytes) (pos : Nat) (place : LineColumn)
    (range : TextRange) : Prop where
  position : (create text).getPosition pos = .ok place
  line : place.line = (text.take pos).count '\n'.toUInt8
  column : ∃ start, StartsLine text pos start ∧ place.column = pos - start
  lineRange : (create text).getLineRange place.line = .ok range
  start_le : range.start ≤ pos
  le_finish : pos ≤ range.finish
  start_add_column : range.start + place.column = pos

/-- A place is located, and before the places behind it. -/
def ExactAt (text : Bytes) (pos : Nat) : Prop :=
  ∃ place range, Locates text pos place range ∧
    ∀ later, pos < later → later ≤ text.length →
      ∃ next, (create text).getPosition later = .ok next ∧ place.Before next

variable {text : Bytes} {pos : Nat}

theorem startsLine_columnAt (inside : pos ≤ text.length) :
    StartsLine text pos (pos - columnAt text pos) where
  start_le := Nat.sub_le _ _
  first := by
    have length := List.length_take_of_le inside
    rcases Nat.lt_or_eq_of_le (columnAt_le inside) with later | whole
    · have shorter : Lines.column '\n'.toUInt8 (text.take pos) <
          (text.take pos).length := by rwa [length]
      have newline := Lines.getElem?_column '\n'.toUInt8 shorter
      rw [length, List.getElem?_take_of_lt (by omega)] at newline
      exact .inr newline
    · left
      rw [whole, Nat.sub_self]
  oneLine := by
    have before := Lines.newline_notMem_drop '\n'.toUInt8 (text.take pos)
    rwa [List.length_take_of_le inside] at before

theorem lineAt_le (inside : pos ≤ text.length) : lineAt text pos ≤ pos := by
  have few : lineAt text pos ≤ (text.take pos).length := List.count_le_length
  rwa [List.length_take_of_le inside] at few

theorem lineAt_mono (text : Bytes) {later : Nat} (before : pos ≤ later) :
    lineAt text pos ≤ lineAt text later :=
  (List.take_sublist_take_left before).count_le _

/-- Two places of one line are as far apart as their columns. -/
theorem column_lt_column {later : Nat} (before : pos < later)
    (inside : later ≤ text.length) (same : lineAt text pos = lineAt text later) :
    columnAt text pos < columnAt text later := by
  have first := getElem?_lineAt (Nat.le_trans (Nat.le_of_lt before) inside)
  have second := getElem?_lineAt inside
  rw [same, second] at first
  have starts := Option.some.inj first
  have short := columnAt_le (Nat.le_trans (Nat.le_of_lt before) inside)
  omega

theorem getPosition_small (small : text.length < 2 ^ 32)
    (inside : pos ≤ text.length) :
    (create text).getPosition pos =
      .ok ⟨lineAt text pos, columnAt text pos⟩ := by
  have line := lineAt_le inside
  have column := columnAt_le inside
  rw [getPosition_create inside, truncateToUnsigned_of_lt (by omega),
    truncateToUnsigned_of_lt (by omega)]

theorem lineAt_replicate {count : Nat}
    (newlines : text = List.replicate count '\n'.toUInt8) :
    lineAt text text.length = count := by
  rw [lineAt, List.take_length, newlines, List.count_replicate_self]

/-- The only place whose line has a successor that is not a number of 32
bits. -/
theorem lineAt_last_iff (small : text.length < 2 ^ 32)
    (inside : pos ≤ text.length) :
    ¬ lineAt text pos + 1 < 2 ^ 32 ↔
      text = List.replicate (2 ^ 32 - 1) '\n'.toUInt8 ∧ pos = text.length := by
  constructor
  · intro last
    have few := lineAt_le inside
    have ends : pos = text.length := by omega
    have long : text.length = 2 ^ 32 - 1 := by omega
    have all : text.count '\n'.toUInt8 = text.length := by
      rw [lineAt, ends, List.take_length] at last few
      omega
    refine ⟨List.eq_replicate_iff.mpr ⟨long, fun c member => ?_⟩, ends⟩
    exact (List.count_eq_length.mp all c member).symm
  · rintro ⟨newlines, rfl⟩
    rw [lineAt_replicate newlines]
    decide

/-- The places behind a place have a later line or column. -/
theorem before_of_lt {later : Nat} (before : pos < later)
    (inside : later ≤ text.length) :
    LineColumn.Before ⟨lineAt text pos, columnAt text pos⟩
      ⟨lineAt text later, columnAt text later⟩ := by
  rcases Nat.lt_or_eq_of_le (lineAt_mono text (Nat.le_of_lt before))
    with line | same
  · exact .inl line
  · exact .inr ⟨same, column_lt_column before inside same⟩

theorem exactAt_of_fits (small : text.length < 2 ^ 32)
    (inside : pos ≤ text.length) (fits : lineAt text pos + 1 < 2 ^ 32) :
    ExactAt text pos := by
  have column := columnAt_le inside
  refine ⟨⟨lineAt text pos, columnAt text pos⟩, _, {
    position := getPosition_small small inside
    line := rfl
    column := ⟨pos - columnAt text pos, startsLine_columnAt inside,
      (Nat.sub_sub_self column).symm⟩
    lineRange := getLineRange_create inside fits
    start_le := Nat.sub_le _ _
    le_finish := ?_
    start_add_column := Nat.sub_add_cancel column }, ?_⟩
  · have ends : pos ≤ lineEnd text pos := le_lineEnd
    split
    · exact inside
    · exact Nat.le_succ_of_le ends
  · intro later before within
    exact ⟨_, getPosition_small small within, before_of_lt before within⟩

/-- The range of the line after the last number ends before its start. -/
theorem not_exactAt_of_wraps (small : text.length < 2 ^ 32)
    (inside : pos ≤ text.length) (wraps : ¬ lineAt text pos + 1 < 2 ^ 32) :
    ¬ ExactAt text pos := by
  rintro ⟨place, range, located, -⟩
  have position := located.position
  rw [getPosition_small small inside] at position
  have line : place.line = lineAt text pos :=
    (congrArg LineColumn.line (Except.ok.inj position)).symm
  have few := lineAt_le inside
  have found := located.lineRange
  rw [line] at found
  have nothing := getLineRange_wraps (by omega) found
  have reached := located.le_finish
  omega

/-- Every place of a file that fits 32 bits is exact, but the end of the file
that is nothing but as many newlines as there can be. -/
theorem exactAt_iff (small : text.length < 2 ^ 32)
    (inside : pos ≤ text.length) :
    ExactAt text pos ↔
      ¬ (text = List.replicate (2 ^ 32 - 1) '\n'.toUInt8 ∧
        pos = text.length) := by
  rw [← lineAt_last_iff small inside, not_not]
  constructor
  · intro exact
    by_contra wraps
    exact not_exactAt_of_wraps small inside wraps exact
  · exact exactAt_of_fits small inside

/-- A place on a newline, behind one. -/
theorem exactAt_secondLine : ExactAt [97, 10, 10, 98] 2 := by
  refine (exactAt_iff (by decide) (by decide)).mpr fun newlines => ?_
  have other := (List.eq_replicate_iff.mp newlines.1).2 97 List.mem_cons_self
  exact absurd other (by decide)

/-- The end of a file of `2 ^ 32 - 1` newlines. -/
theorem newlines_not_exactAt :
    (List.replicate (2 ^ 32 - 1) '\n'.toUInt8).length < 2 ^ 32 ∧
      ¬ ExactAt (List.replicate (2 ^ 32 - 1) '\n'.toUInt8) (2 ^ 32 - 1) := by
  have length : (List.replicate (2 ^ 32 - 1) '\n'.toUInt8).length =
      2 ^ 32 - 1 := List.length_replicate
  have small : (List.replicate (2 ^ 32 - 1) '\n'.toUInt8).length < 2 ^ 32 := by
    rw [length]
    decide
  have last := (lineAt_last_iff small (Nat.le_refl _)).mpr ⟨rfl, rfl⟩
  have wrong := not_exactAt_of_wraps small (Nat.le_refl _) last
  rw [length] at wrong
  exact ⟨small, wrong⟩

end LineMap

end Initd
