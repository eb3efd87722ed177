import Initd.Library.Lines
import Initd.LineMap.LineMap

namespace Initd

open Library

/-! The places of a text, before their numbers are converted. -/

def lineAt (text : Bytes) (pos : Nat) : Nat :=
  (text.take pos).count '\n'.toUInt8

def columnAt (text : Bytes) (pos : Nat) : Nat :=
  Lines.column '\n'.toUInt8 (text.take pos)

def lineEnd (text : Bytes) (pos : Nat) : Nat :=
  pos + Lines.remaining '\n'.toUInt8 (text.drop pos)

/-- The range is a part of the file, around a place and without a newline. -/
structure OnLine (text : Bytes) (pos : Nat) (range : TextRange) : Prop where
  start_le : range.start ≤ pos
  le_finish : pos ≤ range.finish
  finish_le : range.finish ≤ text.length
  oneLine : '\n'.toUInt8 ∉ (text.take range.finish).drop range.start

/-- The place is the end of a file that is empty or ends with a newline. -/
def AtEmptyLastLine (text : Bytes) (pos : Nat) : Prop :=
  pos = text.length ∧ ∀ c ∈ text.getLast?, c = '\n'.toUInt8

theorem lineBreaksFrom_eq (pos : Nat) (text : Bytes) :
    lineBreaksFrom pos text = Lines.breaks '\n'.toUInt8 pos text := by
  induction text generalizing pos with
  | nil => rfl
  | cons c text induction =>
      rw [lineBreaksFrom, Lines.breaks, induction]

variable {text : Bytes} {pos : Nat}

theorem columnAt_le (inside : pos ≤ text.length) : columnAt text pos ≤ pos := by
  have short := Lines.column_le '\n'.toUInt8 (text.take pos)
  rwa [List.length_take_of_le inside] at short

theorem le_lineEnd : pos ≤ lineEnd text pos := Nat.le_add_right _ _

theorem lineEnd_le (inside : pos ≤ text.length) :
    lineEnd text pos ≤ text.length := by
  have short := Lines.remaining_le '\n'.toUInt8 (text.drop pos)
  rw [List.length_drop] at short
  rw [lineEnd]
  omega

theorem newline_notMem_lineEnd {later : Nat} (within : later ≤ lineEnd text pos) :
    '\n'.toUInt8 ∉ (text.drop pos).take (later - pos) := by
  have short : later - pos ≤ Lines.remaining '\n'.toUInt8 (text.drop pos) := by
    rw [lineEnd] at within
    omega
  have none := Lines.newline_notMem_take '\n'.toUInt8 (text.drop pos)
  exact fun member => none ((List.take_subset_take_left _ short) member)

theorem onLine_lineEnd (inside : pos ≤ text.length) :
    OnLine text pos ⟨pos - columnAt text pos, lineEnd text pos⟩ where
  start_le := Nat.sub_le _ _
  le_finish := le_lineEnd
  finish_le := lineEnd_le inside
  oneLine := by
    have before := Lines.newline_notMem_drop '\n'.toUInt8
      (text.take pos)
    rw [List.length_take_of_le inside] at before
    have after : '\n'.toUInt8 ∉
        (text.drop pos).take (lineEnd text pos - pos) :=
      newline_notMem_lineEnd (Nat.le_refl _)
    have cut : text.take (lineEnd text pos) =
        text.take pos ++ (text.drop pos).take (lineEnd text pos - pos) := by
      rw [← List.take_add, Nat.add_sub_cancel' le_lineEnd]
    have early : pos - columnAt text pos ≤ (text.take pos).length := by
      rw [List.length_take_of_le inside]
      exact Nat.sub_le _ _
    simp only [cut, List.drop_append_of_le_length early, List.mem_append]
    exact not_or.mpr ⟨before, after⟩

theorem lineAt_lineEnd {later : Nat} (before : pos ≤ later)
    (within : later ≤ lineEnd text pos) : lineAt text later = lineAt text pos := by
  have cut : text.take later =
      text.take pos ++ (text.drop pos).take (later - pos) := by
    rw [← List.take_add, Nat.add_sub_cancel' before]
  have none := List.count_eq_zero.mpr (newline_notMem_lineEnd within)
  rw [lineAt, cut, List.count_append, none]
  rfl

/-! What a `line_map` says about a place. -/

namespace LineMap

theorem getElem?_lineAt (inside : pos ≤ text.length) :
    (create text).lineBreaks[lineAt text pos]? =
      some (pos - columnAt text pos) := by
  have line := Lines.getElem?_line '\n'.toUInt8 (text.take pos)
  rw [List.length_take_of_le inside] at line
  have found := (List.getElem?_eq_some_iff.mp line).1
  have whole := Lines.breaks_append '\n'.toUInt8 0 (text.take pos)
    (text.drop pos)
  rw [List.take_append_drop] at whole
  rw [create, lineBreaksFrom_eq, whole, ← List.cons_append, lineAt,
    List.getElem?_append_left found]
  exact line

theorem getElem?_nextLine (inside : pos ≤ text.length) :
    (create text).lineBreaks[lineAt text pos + 1]? =
      if lineEnd text pos = text.length then none
      else some (lineEnd text pos + 1) := by
  have whole := Lines.breaks_append '\n'.toUInt8 0 (text.take pos)
    (text.drop pos)
  rw [List.take_append_drop, List.length_take_of_le inside, Nat.zero_add]
    at whole
  have next := Lines.getElem?_next '\n'.toUInt8 pos (text.drop pos)
  have ends : Lines.remaining '\n'.toUInt8 (text.drop pos) =
      (text.drop pos).length ↔ lineEnd text pos = text.length := by
    rw [List.length_drop, lineEnd]
    omega
  rw [create, lineBreaksFrom_eq, whole, List.getElem?_cons_succ, lineAt,
    List.getElem?_append_right (Nat.le_of_eq (Lines.breaks_length _ _ _)),
    Lines.breaks_length, Nat.sub_self, next]
  exact if_congr ends rfl rfl

/-- The assertion holds, and the line and the column are right up to their
conversion. -/
theorem getPosition_create (inside : pos ≤ text.length) :
    (create text).getPosition pos =
      .ok ⟨truncateToUnsigned (lineAt text pos),
        truncateToUnsigned (columnAt text pos)⟩ := by
  have index : (create text).lineBreaks.findIdx (pos < ·) =
      lineAt text pos + 1 := by
    have found := Lines.findIdx_breaks '\n'.toUInt8 0 pos text
    rw [create, lineBreaksFrom_eq, List.findIdx_cons, found]
    rfl
  have start : (create text).lineBreak (lineAt text pos) =
      .ok (pos - columnAt text pos) := by
    rw [lineBreak, getElem?_lineAt inside]
  have back : pos - (pos - columnAt text pos) = columnAt text pos := by
    have short := columnAt_le inside
    omega
  rw [getPosition, index]
  simp only [start]
  change Except.ok (LineColumn.mk _ (truncateToUnsigned (pos - _))) = _
  rw [back]

theorem truncateToUnsigned_of_lt {value : Nat} (small : value < 2 ^ 32) :
    truncateToUnsigned value = value :=
  Nat.mod_eq_of_lt small

/-- The range of a line whose number fits reaches over its newline. -/
theorem getLineRange_create (inside : pos ≤ text.length)
    (few : lineAt text pos + 1 < 2 ^ 32) :
    (create text).getLineRange (lineAt text pos) =
      .ok ⟨pos - columnAt text pos,
        if lineEnd text pos = text.length then text.length
        else lineEnd text pos + 1⟩ := by
  have start : (create text).lineBreak (lineAt text pos) =
      .ok (pos - columnAt text pos) := by
    rw [lineBreak, getElem?_lineAt inside]
  have next := getElem?_nextLine inside
  simp only [getLineRange, truncateToUnsigned_of_lt few, start]
  split at next
  · next last =>
      rw [if_neg (Nat.not_lt.mpr (List.getElem?_eq_none_iff.mp next)),
        if_pos last]
      rfl
  · next more =>
      have present := (List.getElem?_eq_some_iff.mp next).1
      have finish : (create text).lineBreak (lineAt text pos + 1) =
          .ok (lineEnd text pos + 1) := by
        rw [lineBreak, next]
      rw [if_pos present, if_neg more, finish]
      rfl

theorem last_of_lineEnd (inside : pos ≤ text.length)
    (last : lineEnd text pos = text.length)
    (notEmpty : ¬ AtEmptyLastLine text pos) :
    ∃ c, text.getLast? = some c ∧ c ≠ '\n'.toUInt8 := by
  have none := newline_notMem_lineEnd (Nat.le_of_eq last.symm)
  rw [← List.length_drop, List.take_length] at none
  rw [AtEmptyLastLine, not_and_or] at notEmpty
  cases notEmpty with
  | inl before =>
      have short : pos < text.length := Nat.lt_of_le_of_ne inside before
      have found : text.drop pos ≠ [] := List.drop_eq_nil_iff.not.mpr
        (Nat.not_le.mpr short)
      refine ⟨(text.drop pos).getLast found, ?_, fun same => none ?_⟩
      · rw [← List.getLast?_eq_some_getLast found, List.getLast?_drop,
          if_neg (Nat.not_le.mpr short)]
      · rw [← same]
        exact List.getLast_mem found
  | inr other => simpa using other

theorem getLineRangeWoNewline_ok {lmap : LineMap} {line : Nat}
    {range : TextRange} {c : UInt8}
    (found : lmap.getLineRange line = .ok range)
    (last : lmap.byteBefore range.finish = .ok c) :
    lmap.getLineRangeWoNewline line =
      .ok (if c = '\n'.toUInt8 then ⟨range.start, range.finish - 1⟩
        else range) := by
  rw [getLineRangeWoNewline, found]
  change (lmap.byteBefore range.finish >>= fun c =>
    if c = '\n'.toUInt8 then pure _ else pure _) = _
  rw [last]
  change (if c = '\n'.toUInt8 then Except.ok _ else Except.ok _) = _
  split <;> rfl

theorem getLineRangeWoNewline_outside {lmap : LineMap} {line : Nat}
    {range : TextRange} (found : lmap.getLineRange line = .ok range)
    (nothing : range.finish = 0) :
    lmap.getLineRangeWoNewline line = .error .outsideFile := by
  rw [getLineRangeWoNewline, found]
  change (lmap.byteBefore range.finish >>= fun c =>
    if c = '\n'.toUInt8 then pure _ else pure _) = _
  rw [nothing]
  rfl

theorem byteBefore_newline {finish : Nat} {c : UInt8}
    (last : text[finish]? = some c) :
    (create text).byteBefore (finish + 1) = .ok c := by
  rw [byteBefore, create, last]

theorem byteBefore_end {c : UInt8} (last : text.getLast? = some c) :
    (create text).byteBefore text.length = .ok c := by
  obtain ⟨before, rfl⟩ := List.getLast?_eq_some_iff.mp last
  rw [List.length_append]
  exact byteBefore_newline (by simp)

/-- A line with a number that fits is printed from its start to its end. -/
theorem getLineRangeWoNewline_create (inside : pos ≤ text.length)
    (few : lineAt text pos + 1 < 2 ^ 32)
    (notEmpty : ¬ AtEmptyLastLine text pos) :
    (create text).getLineRangeWoNewline (lineAt text pos) =
      .ok ⟨pos - columnAt text pos, lineEnd text pos⟩ := by
  have found := getLineRange_create inside few
  split at found
  · next last =>
      obtain ⟨c, byte, other⟩ := last_of_lineEnd inside last notEmpty
      rw [getLineRangeWoNewline_ok found (byteBefore_end byte), if_neg other,
        last]
  · next more =>
      have newline : text[lineEnd text pos]? = some '\n'.toUInt8 := by
        rw [lineEnd, ← List.getElem?_drop]
        apply Lines.getElem?_remaining
        rw [List.length_drop]
        rw [lineEnd] at more
        omega
      rw [getLineRangeWoNewline_ok found (byteBefore_newline newline),
        if_pos rfl]
      rfl

/-- At the end of a file that is empty or ends with a newline, the byte before
the file is read, or the range ends before its start. -/
theorem not_onLine_of_atEmptyLastLine {range : TextRange}
    (few : lineAt text pos + 1 < 2 ^ 32) (empty : AtEmptyLastLine text pos)
    (found : (create text).getLineRangeWoNewline (lineAt text pos) = .ok range) :
    ¬ OnLine text pos range := by
  obtain ⟨rfl, newline⟩ := empty
  have inside := Nat.le_refl text.length
  have last : lineEnd text text.length = text.length :=
    Nat.le_antisymm (lineEnd_le inside) le_lineEnd
  have whole := getLineRange_create inside few
  rw [if_pos last] at whole
  intro onLine
  cases byte : text.getLast? with
  | none =>
      have nothing := List.getLast?_eq_none_iff.mp byte
      rw [getLineRangeWoNewline_outside whole (by rw [nothing]; rfl)] at found
      contradiction
  | some c =>
      have same := newline c byte
      have positive : 0 < text.length :=
        List.length_pos_of_mem (List.mem_of_getLast? byte)
      rw [getLineRangeWoNewline_ok whole (byteBefore_end byte), if_pos same]
        at found
      have shorter := onLine.le_finish
      rw [← Except.ok.inj found] at shorter
      change text.length ≤ text.length - 1 at shorter
      omega

theorem exists_lineAt {line : Nat} (earlier : line ≤ lineAt text pos) :
    ∃ before ≤ pos, lineAt text before = line := by
  induction pos with
  | zero =>
      obtain rfl : line = 0 := by simpa [lineAt] using earlier
      exact ⟨0, Nat.le_refl 0, rfl⟩
  | succ pos induction =>
      by_cases here : lineAt text (pos + 1) = line
      · exact ⟨pos + 1, Nat.le_refl _, here⟩
      · have step : lineAt text (pos + 1) ≤ lineAt text pos + 1 := by
          rw [lineAt, List.take_add_one, List.count_append]
          refine Nat.add_le_add_left (Nat.le_trans List.count_le_length ?_) _
          cases text[pos]? <;> simp
        obtain ⟨before, le, same⟩ := induction (by omega)
        exact ⟨before, Nat.le_succ_of_le le, same⟩

/-- The line after the last number is line zero, where the file starts. -/
theorem getLineRange_wraps {line : Nat} {range : TextRange}
    (wraps : line + 1 = 2 ^ 32)
    (found : (create text).getLineRange line = .ok range) :
    range.finish = 0 := by
  have next : truncateToUnsigned (line + 1) = 0 := by
    rw [wraps]
    rfl
  have some_line : 0 < (create text).lineBreaks.length := Nat.zero_lt_succ _
  simp only [getLineRange, next, if_pos some_line] at found
  cases start : (create text).lineBreak line with
  | error fault =>
      rw [start] at found
      contradiction
  | ok start' =>
      rw [start] at found
      rw [← Except.ok.inj found]

/-- A line whose number does not fit is taken for another one. -/
theorem not_onLine_of_many {range : TextRange} (inside : pos ≤ text.length)
    (many : ¬ lineAt text pos + 1 < 2 ^ 32)
    (found : (create text).getLineRangeWoNewline
      (truncateToUnsigned (lineAt text pos)) = .ok range) :
    ¬ OnLine text pos range := by
  have bound : truncateToUnsigned (lineAt text pos) < 2 ^ 32 :=
    Nat.mod_lt _ (by decide)
  by_cases few : truncateToUnsigned (lineAt text pos) + 1 < 2 ^ 32
  · have earlier : truncateToUnsigned (lineAt text pos) < lineAt text pos := by
      refine Nat.lt_of_le_of_ne (Nat.mod_le _ _) fun same => many ?_
      rwa [same] at few
    obtain ⟨before, le, same⟩ := exists_lineAt (Nat.le_of_lt earlier)
    have behind : lineEnd text before < pos := by
      by_contra within
      have still := lineAt_lineEnd le (Nat.not_lt.mp within)
      omega
    have short : before < text.length :=
      Nat.lt_of_le_of_lt le_lineEnd (Nat.lt_of_lt_of_le behind inside)
    rw [← same, getLineRangeWoNewline_create (Nat.le_of_lt short)
      (by rwa [same]) fun empty => Nat.ne_of_lt short empty.1] at found
    intro onLine
    have reaches := onLine.le_finish
    rw [← Except.ok.inj found] at reaches
    exact Nat.not_le.mpr behind reaches
  · have wraps : truncateToUnsigned (lineAt text pos) + 1 = 2 ^ 32 := by
      omega
    cases whole : (create text).getLineRange
        (truncateToUnsigned (lineAt text pos)) with
    | error fault =>
        rw [getLineRangeWoNewline, whole] at found
        contradiction
    | ok line =>
        rw [getLineRangeWoNewline_outside whole
          (getLineRange_wraps wraps whole)] at found
        contradiction

end LineMap

end Initd
