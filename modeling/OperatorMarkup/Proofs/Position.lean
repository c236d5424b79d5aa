import Mathlib.Data.List.DropRight
import OperatorMarkup.Proofs.Source

/-!
# Lines and columns

A line starts with the text and behind each newline, so the table of a text is in
order, and halving it finds the number of newlines before an offset.  Positions are
therefore given by the text before an offset alone: by its newlines, and by the
characters behind the last of them.  Each further character moves the position on.
-/

namespace OperatorMarkup

/-! ## Halving a range -/

section Halving

variable {α : Type} {entries : Array α} {fulfils : α → Bool} {front back : List α}

theorem fulfils_getElem_iff (entries_eq : entries.toList = front ++ back)
    (fulfilled : ∀ entry ∈ front, fulfils entry = true)
    (failed : ∀ entry ∈ back, fulfils entry = false) {index : Nat} (inside : index < entries.size) :
    fulfils entries[index] = true ↔ index < front.length := by
  have entry_eq : entries[index]? = (front ++ back)[index]? := by
    rw [← entries_eq, Array.getElem?_toList]
  rw [Array.getElem?_eq_getElem inside] at entry_eq
  constructor
  · intro holds
    by_contra behind
    rw [List.getElem?_append_right (Nat.not_lt.mp behind)] at entry_eq
    rw [failed _ (List.mem_of_getElem? entry_eq.symm)] at holds
    contradiction
  · intro before
    rw [List.getElem?_append_left before] at entry_eq
    exact fulfilled _ (List.mem_of_getElem? entry_eq.symm)

/-- Where the entries that fulfil a condition come first, halving finds their number. -/
theorem partitionPoint_eq (entries_eq : entries.toList = front ++ back)
    (fulfilled : ∀ entry ∈ front, fulfils entry = true)
    (failed : ∀ entry ∈ back, fulfils entry = false) {low high : Nat}
    {inside : high ≤ entries.size} (least : low ≤ front.length) (most : front.length ≤ high) :
    partitionPoint entries fulfils low high inside = front.length := by
  -- The number lies between the bounds at each step.
  fun_induction partitionPoint entries fulfils low high inside with
  | case1 low high inside less middle below holds ih =>
      exact ih ((fulfils_getElem_iff entries_eq fulfilled failed below).mp holds) most
  | case2 low high inside less middle below fails ih =>
      rw [fulfils_getElem_iff entries_eq fulfilled failed below] at fails
      exact ih least (Nat.not_lt.mp fails)
  | case3 low high inside notLess => omega

end Halving

/-! ## Starts of lines -/

/-- The offsets behind the newlines of characters that stand at an offset. -/
def newlineEnds (offset : Nat) : List Char → List Nat
  | [] => []
  | c :: rest =>
      if c = '\n' then (offset + c.utf8Size) :: newlineEnds (offset + c.utf8Size) rest
      else newlineEnds (offset + c.utf8Size) rest

theorem newlineEnds_append (offset : Nat) (front back : List Char) :
    newlineEnds offset (front ++ back) =
      newlineEnds offset front ++ newlineEnds (offset + byteCount front) back := by
  induction front generalizing offset with
  | nil => rfl
  | cons c front ih =>
      simp only [List.cons_append, newlineEnds, ih, byteCount_cons, Nat.add_assoc]
      split <;> rfl

theorem length_newlineEnds (offset : Nat) (text : List Char) :
    (newlineEnds offset text).length = text.count '\n' := by
  induction text generalizing offset with
  | nil => rfl
  | cons c text ih =>
      rw [newlineEnds, List.count_cons]
      split <;> simp_all

theorem newlineEnds_of_not_mem {text : List Char} (none : '\n' ∉ text) (offset : Nat) :
    newlineEnds offset text = [] := by
  rw [← List.length_eq_zero_iff, length_newlineEnds]
  exact List.count_eq_zero.mpr none

theorem newlineEnds_bounds {offset stop : Nat} {text : List Char}
    (member : stop ∈ newlineEnds offset text) : offset < stop ∧ stop ≤ offset + byteCount text := by
  induction text generalizing offset with
  | nil => exact absurd member List.not_mem_nil
  | cons c text ih =>
      have positive := c.utf8Size_pos
      rw [byteCount_cons]
      rw [newlineEnds] at member
      split at member
      · rcases List.mem_cons.mp member with rfl | later
        · omega
        · have bounds := ih later
          omega
      · have bounds := ih member
        omega

/-- Lines start in the order of their newlines. -/
theorem pairwise_newlineEnds (offset : Nat) (text : List Char) :
    (newlineEnds offset text).Pairwise (· < ·) := by
  induction text generalizing offset with
  | nil => exact List.Pairwise.nil
  | cons c text ih =>
      rw [newlineEnds]
      split
      · exact List.pairwise_cons.mpr ⟨fun stop later => (newlineEnds_bounds later).1, ih _⟩
      · exact ih _

namespace LineTable

theorem toList_starts_extend (table : LineTable) (offset : Nat) (text : List Char) :
    (table.extend offset text).starts.toList = table.starts.toList ++ newlineEnds offset text := by
  induction text generalizing table offset with
  | nil => simp [extend, newlineEnds]
  | cons c text ih =>
      rw [extend, newlineEnds]
      split <;> simp [ih]

theorem toList_starts_ofText (text : String) :
    (ofText text).starts.toList = 0 :: newlineEnds 0 text.toList :=
  toList_starts_extend _ 0 text.toList

end LineTable

/-! ## Positions from the text before them -/

/-- The characters of a text behind its last newline. -/
def lastLine (text : List Char) : List Char :=
  text.rtakeWhile (· ≠ '\n')

/-- The characters of a text up to its last newline. -/
def earlierLines (text : List Char) : List Char :=
  text.rdropWhile (· ≠ '\n')

theorem earlierLines_append_lastLine (text : List Char) :
    earlierLines text ++ lastLine text = text :=
  List.rdropWhile_append_rtakeWhile

theorem newline_not_mem_lastLine (text : List Char) : '\n' ∉ lastLine text := by
  intro member
  simpa using List.mem_rtakeWhile_imp member

theorem count_earlierLines (text : List Char) :
    (earlierLines text).count '\n' = text.count '\n' := by
  conv_rhs => rw [← earlierLines_append_lastLine text]
  rw [List.count_append, List.count_eq_zero.mpr (newline_not_mem_lastLine text), Nat.add_zero]

theorem earlierLines_cases (text : List Char) :
    earlierLines text = [] ∨ ∃ front, earlierLines text = front ++ ['\n'] := by
  by_cases none : earlierLines text = []
  · exact .inl none
  · have last : (earlierLines text).getLast none = '\n' := by
      have refused := List.rdropWhile_last_not _ _ none
      rwa [decide_not, Bool.not_eq_true, Bool.not_eq_false', decide_eq_true_eq] at refused
    refine .inr ⟨(earlierLines text).dropLast, ?_⟩
    rw [← last, List.dropLast_append_getLast]

/-- The last line of a text starts behind all earlier ones. -/
theorem getElem?_starts (text : List Char) :
    (0 :: newlineEnds 0 (earlierLines text))[text.count '\n']? =
      some (byteCount (earlierLines text)) := by
  rw [← count_earlierLines]
  rcases earlierLines_cases text with none | ⟨front, front_eq⟩
  · rw [none]
    rfl
  · have size : '\n'.utf8Size = 1 := rfl
    have last : newlineEnds (byteCount front) ['\n'] = [byteCount front + 1] := rfl
    rw [front_eq, newlineEnds_append, Nat.zero_add, last, List.count_append, byteCount_append,
      ← length_newlineEnds 0 front]
    simp [size]

/-- The position behind a text: one line on for each newline, and one column on for each
character behind the last of them. -/
def Position.behind (text : List Char) : Position :=
  ⟨1 + text.count '\n', 1 + (lastLine text).length⟩

namespace Source

variable {source : Source} {before behind : String} {offset : Nat}

/-- The table holds the starts of the lines before an offset, and then those behind it. -/
theorem toList_starts (text_eq : source.text = before ++ behind) :
    source.lines.starts.toList =
      (0 :: newlineEnds 0 (earlierLines before.toList)) ++
        newlineEnds before.utf8ByteSize behind.toList := by
  have parts : newlineEnds 0 before.toList = newlineEnds 0 (earlierLines before.toList) := by
    conv_lhs => rw [← earlierLines_append_lastLine before.toList]
    rw [newlineEnds_append, newlineEnds_of_not_mem (newline_not_mem_lastLine _), List.append_nil]
  rw [lines, LineTable.toList_starts_ofText, text_eq, String.toList_append, newlineEnds_append,
    parts, Nat.zero_add, ← utf8ByteSize_eq_byteCount, List.cons_append]

/-- An offset lies in the line with as many newlines before it as there are before the offset. -/
theorem partitionPoint_starts (text_eq : source.text = before ++ behind) :
    partitionPoint source.lines.starts (· ≤ before.utf8ByteSize) 0 source.lines.starts.size
      (Nat.le_refl _) = before.toList.count '\n' + 1 := by
  have starts_eq := toList_starts text_eq
  have within : byteCount (earlierLines before.toList) ≤ before.utf8ByteSize := by
    conv_rhs => rw [utf8ByteSize_eq_byteCount, ← earlierLines_append_lastLine before.toList]
    rw [byteCount_append]
    exact Nat.le_add_right _ _
  have number : (0 :: newlineEnds 0 (earlierLines before.toList)).length =
      before.toList.count '\n' + 1 := by
    rw [List.length_cons, length_newlineEnds, count_earlierLines]
  rw [← number]
  apply partitionPoint_eq starts_eq
  · intro start member
    rw [decide_eq_true_eq]
    rcases List.mem_cons.mp member with rfl | later
    · exact Nat.zero_le _
    · have bounds := newlineEnds_bounds later
      omega
  · intro start member
    have bounds := newlineEnds_bounds member
    rw [decide_eq_false_iff_not]
    omega
  · exact Nat.zero_le _
  · rw [← Array.length_toList, starts_eq, List.length_append]
    exact Nat.le_add_right _ _

theorem lineAt_val (text_eq : source.text = before ++ behind) :
    (source.lines.lineAt before.utf8ByteSize).val = before.toList.count '\n' := by
  simp only [LineTable.lineAt, partitionPoint_starts text_eq, Nat.add_sub_cancel]

theorem starts_lineAt (text_eq : source.text = before ++ behind) :
    source.lines.starts[source.lines.lineAt before.utf8ByteSize] =
      byteCount (earlierLines before.toList) := by
  have found : source.lines.starts[before.toList.count '\n']? =
      some (byteCount (earlierLines before.toList)) := by
    rw [← Array.getElem?_toList, toList_starts text_eq, List.getElem?_append_left,
      getElem?_starts]
    rw [List.length_cons, length_newlineEnds, count_earlierLines]
    exact Nat.lt_succ_self _
  rw [← lineAt_val text_eq, Array.getElem?_eq_getElem (Fin.isLt _)] at found
  exact Option.some.inj found

/-- The text between the start of its line and an offset is the last line before the offset. -/
theorem holds_lastLine (text_eq : source.text = before ++ behind) :
    source.Holds (byteCount (earlierLines before.toList))
      (String.ofList (lastLine before.toList)) := by
  refine ⟨String.ofList (earlierLines before.toList), behind, ?_, utf8ByteSize_ofList _⟩
  rw [text_eq, ← String.ofList_append, earlierLines_append_lastLine, String.ofList_toList]

/-- The position of an offset is given by the text before it. -/
theorem position_eq_behind (text_eq : source.text = before ++ behind)
    (size_eq : before.utf8ByteSize = min offset source.size) :
    source.position offset = .behind before.toList := by
  have slice_eq : sliceBytes source.text (byteCount (earlierLines before.toList))
      before.utf8ByteSize = String.ofList (lastLine before.toList) := by
    have slice := (holds_lastLine text_eq).sliceBytes_eq
    rwa [utf8ByteSize_ofList, ← byteCount_append, earlierLines_append_lastLine,
      ← utf8ByteSize_eq_byteCount] at slice
  simp only [position, ← size_eq, lineAt_val text_eq, starts_lineAt text_eq, slice_eq,
    String.length_ofList]
  rw [Position.behind, Nat.add_comm 1, Nat.add_comm 1]

end Source

/-! ## Positions in order -/

namespace Position

/-- A position comes before another, in an earlier line or further to the left in the same
one. -/
def Before (first second : Position) : Prop :=
  first.line < second.line ∨ first.line = second.line ∧ first.column < second.column

theorem Before.ne {first second : Position} (before : first.Before second) : first ≠ second := by
  rintro rfl
  rcases before with less | ⟨_, less⟩
  · exact Nat.lt_irrefl _ less
  · exact Nat.lt_irrefl _ less

theorem lastLine_append_of_not_mem {more : List Char} (none : '\n' ∉ more) (text : List Char) :
    lastLine (text ++ more) = lastLine text ++ more := by
  rw [lastLine, List.rtakeWhile, List.reverse_append, List.takeWhile_append_of_pos]
  · simp [lastLine, List.rtakeWhile]
  · intro c member
    rw [decide_eq_true_eq]
    exact ne_of_mem_of_not_mem (List.mem_reverse.mp member) none

/-- Further characters move a position on. -/
theorem behind_append (text : List Char) {more : List Char} (nonempty : more ≠ []) :
    (behind text).Before (behind (text ++ more)) := by
  have some := List.length_pos_iff.mpr nonempty
  by_cases none : '\n' ∈ more
  · have lines := List.count_pos_iff.mpr none
    left
    simp only [behind, List.count_append]
    omega
  · right
    simp only [behind, List.count_append, List.count_eq_zero.mpr none,
      lastLine_append_of_not_mem none, List.length_append]
    omega

end Position

namespace Source

variable {source : Source} {first second : Nat}

/-- Positions come in the order of their offsets. -/
theorem position_before (firstCut : source.Holds first "") (secondCut : source.Holds second "")
    (less : first < second) : (source.position first).Before (source.position second) := by
  obtain ⟨text, ⟨before, behind, text_eq, rfl⟩, rfl⟩ :=
    firstCut.exists_between secondCut (Nat.le_of_lt less)
  have nonempty : text.toList ≠ [] := by
    intro none
    rw [utf8ByteSize_eq_byteCount text, none] at less
    exact Nat.lt_irrefl _ less
  have size_eq : source.size = before.utf8ByteSize + text.utf8ByteSize + behind.utf8ByteSize := by
    rw [size, text_eq, String.utf8ByteSize_append, String.utf8ByteSize_append]
  have firstPosition : source.position before.utf8ByteSize = .behind before.toList :=
    position_eq_behind (text_eq.trans String.append_assoc) (by omega)
  have secondPosition : source.position (before.utf8ByteSize + text.utf8ByteSize) =
      .behind (before ++ text).toList :=
    position_eq_behind text_eq (by rw [String.utf8ByteSize_append]; omega)
  rw [firstPosition, secondPosition, String.toList_append]
  exact Position.behind_append _ nonempty

/-- Offsets that a source can be cut at are told apart by their positions. -/
theorem position_inj (firstCut : source.Holds first "") (secondCut : source.Holds second "")
    (same : source.position first = source.position second) : first = second := by
  rcases Nat.lt_trichotomy first second with less | equal | more
  · exact absurd same (position_before firstCut secondCut less).ne
  · exact equal
  · exact absurd same.symm (position_before secondCut firstCut more).ne

/-- The lines of a text start in order, the first of them with the text.  The position of an
offset, or of the end of the text where the offset lies behind it, counts the newlines before it
and the characters behind the last of these.  Positions come in the order of their offsets. -/
theorem position_counts (source : Source) :
    (source.lines.starts[0]? = some 0 ∧ source.lines.starts.toList.Pairwise (· < ·)) ∧
      (∀ (before behind : String) (offset : Nat), source.text = before ++ behind →
        before.utf8ByteSize = min offset source.size →
          source.position offset =
            ⟨1 + before.toList.count '\n', 1 + (lastLine before.toList).length⟩) ∧
      ∀ first second : Nat, source.Holds first "" → source.Holds second "" → first < second →
        (source.position first).Before (source.position second) := by
  refine ⟨⟨?_, ?_⟩, fun before behind offset => position_eq_behind, fun _ _ => position_before⟩
  · rw [← Array.getElem?_toList, lines, LineTable.toList_starts_ofText]
    rfl
  · rw [lines, LineTable.toList_starts_ofText, List.pairwise_cons]
    exact ⟨fun start member => (newlineEnds_bounds member).1, pairwise_newlineEnds 0 _⟩

/-- A text of four lines, with a character of two bytes in the first one and none in the
last. -/
def fourLines : Source :=
  { text := "é=\n\nab\n" }

theorem position_counts_fourLines :
    fourLines.text = "é=\n\na" ++ "b\n" ∧ fourLines.position 6 = ⟨3, 2⟩ ∧
      fourLines.position 100 = ⟨4, 1⟩ ∧ fourLines.Holds 2 "" ∧ fourLines.Holds 6 "" ∧
      (fourLines.position 2).Before (fourLines.position 6) := by
  obtain ⟨_, counts, ordered⟩ := position_counts fourLines
  have front : fourLines.Holds 2 "" := ⟨"é", "=\n\nab\n", by decide, by decide⟩
  have middle : fourLines.Holds 6 "" := ⟨"é=\n\na", "b\n", by decide, by decide⟩
  refine ⟨by decide, ?_, ?_, front, middle, ordered 2 6 front middle (by decide)⟩
  · exact (counts "é=\n\na" "b\n" 6 (by decide) (by decide)).trans (by decide)
  · exact (counts "é=\n\nab\n" "" 100 (by decide) (by decide)).trans (by decide)

end Source

end OperatorMarkup
