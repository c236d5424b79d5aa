import Mathlib.Data.List.TakeWhile
import Mathlib.Logic.Relation
import OperatorMarkup.Gap

/-!
# Gaps that mean the same

Of a gap it matters whether it crosses no line end, one or more, whether it takes any
column on its first and on its last line, and, where it leads to a new line, how far
that line is indented.  The number of spaces between two words does not matter, nor
do carriage returns, nor which whitespace takes a column.
-/

namespace OperatorMarkup

namespace Gap

variable {isFirst : Prop} {first second gap : String}

/-- Two gaps look alike to a token beside them. -/
structure Like (first second : String) : Prop where
  height : min (height first) 2 = min (height second) 2
  firstLine : widthOnFirstLine first = 0 ↔ widthOnFirstLine second = 0
  lastLine : widthOnLastLine first = 0 ↔ widthOnLastLine second = 0

/-- Two gaps agree: they look alike, and where they lead to a new line or start the
text, the line behind them is indented alike. -/
structure Agree (isFirst : Prop) (first second : String) : Prop where
  height : min (height first) 2 = min (height second) 2
  firstLine : widthOnFirstLine first = 0 ↔ widthOnFirstLine second = 0
  lastLine : 0 < Gap.height first ∨ isFirst → widthOnLastLine first = widthOnLastLine second

instance (isFirst : Prop) [Decidable isFirst] (first second : String) :
    Decidable (Agree isFirst first second) :=
  decidable_of_iff (min (height first) 2 = min (height second) 2 ∧
      (widthOnFirstLine first = 0 ↔ widthOnFirstLine second = 0) ∧
      (0 < height first ∨ isFirst → widthOnLastLine first = widthOnLastLine second))
    ⟨fun ⟨height, firstLine, lastLine⟩ => ⟨height, firstLine, lastLine⟩,
      fun agree => ⟨agree.height, agree.firstLine, agree.lastLine⟩⟩

/-! ## Gaps that look alike -/

theorem Like.refl (gap : String) : Like gap gap :=
  ⟨rfl, Iff.rfl, Iff.rfl⟩

theorem Like.height_pos_iff (like : Like first second) :
    0 < Gap.height first ↔ 0 < Gap.height second := by
  have := like.height
  omega

theorem Like.two_le_height_iff (like : Like first second) :
    2 ≤ Gap.height first ↔ 2 ≤ Gap.height second := by
  have := like.height
  omega

theorem Like.widthOnFirstLine_pos_iff (like : Like first second) :
    0 < widthOnFirstLine first ↔ 0 < widthOnFirstLine second := by
  have := like.firstLine
  omega

theorem Like.widthOnLastLine_pos_iff (like : Like first second) :
    0 < widthOnLastLine first ↔ 0 < widthOnLastLine second := by
  have := like.lastLine
  omega

theorem columns_reverse (chars : List Char) : columns chars.reverse = columns chars := by
  simp [columns]

/-- A gap without a line end has one line. -/
theorem widthOnFirstLine_eq_of_height_eq_zero (flat : height gap = 0) :
    widthOnFirstLine gap = widthOnLastLine gap := by
  have within : ∀ c ∈ gap.toList, (c != '\n') = true := by
    intro c member
    rw [bne_iff_ne]
    rintro rfl
    exact List.count_eq_zero.mp flat member
  rw [widthOnFirstLine, widthOnLastLine, List.takeWhile_eq_self_iff.mpr within,
    List.takeWhile_eq_self_iff.mpr fun c member => within c (List.mem_reverse.mp member),
    columns_reverse]

namespace Agree

theorem refl (isFirst : Prop) (gap : String) : Agree isFirst gap gap :=
  ⟨rfl, Iff.rfl, fun _ => rfl⟩

theorem like (agree : Agree isFirst first second) : Like first second := by
  refine ⟨agree.height, agree.firstLine, ?_⟩
  rcases Nat.eq_zero_or_pos (Gap.height first) with flat | tall
  · have flat' : Gap.height second = 0 := by
      have := agree.height
      omega
    rw [← widthOnFirstLine_eq_of_height_eq_zero flat,
      ← widthOnFirstLine_eq_of_height_eq_zero flat']
    exact agree.firstLine
  · rw [agree.lastLine (.inl tall)]

theorem symm (agree : Agree isFirst first second) : Agree isFirst second first := by
  refine ⟨agree.height.symm, agree.firstLine.symm, fun matters => (agree.lastLine ?_).symm⟩
  exact matters.imp_left agree.like.height_pos_iff.mpr

theorem trans (agree : Agree isFirst first second) (agree' : Agree isFirst second gap) :
    Agree isFirst first gap := by
  refine ⟨agree.height.trans agree'.height, agree.firstLine.trans agree'.firstLine,
    fun matters => (agree.lastLine matters).trans (agree'.lastLine ?_)⟩
  exact matters.imp_left agree.like.height_pos_iff.mp

end Agree

/-! ## Changes that leave a gap in agreement -/

theorem columns_takeWhile_filter (chars : List Char) :
    columns ((chars.filter (· != '\r')).takeWhile (· != '\n')) =
      columns (chars.takeWhile (· != '\n')) := by
  induction chars with
  | nil => rfl
  | cons c chars ih =>
      by_cases isReturn : c = '\r'
      · subst isReturn
        simpa [columns] using ih
      · by_cases isNewline : c = '\n'
        · subst isNewline
          rfl
        · simpa [columns, isReturn, isNewline] using ih

/-- Carriage returns do not matter. -/
theorem agree_filter_return (isFirst : Prop) (chars : List Char) :
    Agree isFirst (String.ofList (chars.filter (· != '\r'))) (String.ofList chars) := by
  have height_eq : height (String.ofList (chars.filter (· != '\r'))) =
      height (String.ofList chars) := by
    simp [height, List.count_filter]
  refine ⟨by rw [height_eq], ?_, fun _ => ?_⟩
  · rw [widthOnFirstLine, widthOnFirstLine, String.toList_ofList, String.toList_ofList,
      columns_takeWhile_filter]
  · rw [widthOnLastLine, widthOnLastLine, String.toList_ofList, String.toList_ofList,
      ← List.filter_reverse, columns_takeWhile_filter]

/-- Carriage returns behind a gap do not matter. -/
theorem agree_append_returns (isFirst : Prop) (first : String)
    (returns : ∀ c ∈ second.toList, c = '\r') : Agree isFirst first (first ++ second) := by
  have none : second.toList.filter (· != '\r') = [] :=
    List.filter_eq_nil_iff.mpr fun c member => by simp [returns c member]
  have agree := agree_filter_return isFirst first.toList
  have agree' := agree_filter_return isFirst (first ++ second).toList
  rw [String.toList_append, List.filter_append, none, List.append_nil, ← String.toList_append,
    String.ofList_toList] at agree'
  rw [String.ofList_toList] at agree
  exact agree.symm.trans agree'

/-- A longer gap takes no fewer columns on its first line. -/
theorem widthOnFirstLine_le_append (first second : String) :
    widthOnFirstLine first ≤ widthOnFirstLine (first ++ second) := by
  rw [widthOnFirstLine, widthOnFirstLine, String.toList_append, List.takeWhile_append]
  split
  · next whole =>
      rw [(List.takeWhile_prefix _).eq_of_length whole, columns_append]
      exact Nat.le_add_right _ _
  · exact Nat.le_refl _

/-- Which whitespace takes a column does not matter. -/
theorem agree_map (isFirst : Prop) {f : Char → Char} (newline : ∀ c, f c = '\n' ↔ c = '\n')
    (returns : ∀ c, f c = '\r' ↔ c = '\r') (chars : List Char) :
    Agree isFirst (String.ofList (chars.map f)) (String.ofList chars) := by
  have columns_eq : ∀ chars : List Char, columns ((chars.map f).takeWhile (· != '\n')) =
      columns (chars.takeWhile (· != '\n')) := by
    intro chars
    have kept : (fun c => c != '\n') ∘ f = fun c => c != '\n' := by
      funext c
      simp [bne, newline]
    have counted : (fun c => c != '\r') ∘ f = fun c => c != '\r' := by
      funext c
      simp [bne, returns]
    rw [List.takeWhile_map, kept, columns, List.countP_map, counted, columns]
  have height_eq : height (String.ofList (chars.map f)) = height (String.ofList chars) := by
    have counted : (fun c => c == '\n') ∘ f = fun c => c == '\n' := by
      funext c
      simp [newline]
    simp [height, List.count, List.countP_map, counted]
  refine ⟨by rw [height_eq], ?_, fun _ => ?_⟩
  · rw [widthOnFirstLine, widthOnFirstLine, String.toList_ofList, String.toList_ofList, columns_eq]
  · rw [widthOnLastLine, widthOnLastLine, String.toList_ofList, String.toList_ofList,
      ← List.map_reverse, columns_eq]

/-- How many columns lie between two tokens of one line does not matter. -/
theorem agree_of_height_eq_zero (notFirst : ¬isFirst) (flat : height first = 0)
    (flat' : height second = 0)
    (wide : widthOnFirstLine first = 0 ↔ widthOnFirstLine second = 0) :
    Agree isFirst first second :=
  ⟨by rw [flat, flat'], wide, by simp [flat, notFirst]⟩

theorem takeWhile_append_newline (chars rest : List Char) :
    (chars ++ '\n' :: rest).takeWhile (· != '\n') = chars.takeWhile (· != '\n') := by
  induction chars with
  | nil => rfl
  | cons c chars ih =>
      rw [List.cons_append, List.takeWhile_cons, List.takeWhile_cons, ih]

/-- Further blank lines do not matter. -/
theorem agree_of_blank_line (isFirst : Prop) (before between after : List Char) :
    Agree isFirst (String.ofList (before ++ '\n' :: '\n' :: after))
      (String.ofList (before ++ '\n' :: (between ++ '\n' :: after))) := by
  refine ⟨?_, ?_, fun _ => ?_⟩
  · simp only [height, String.toList_ofList, List.count_append, List.count_cons_self]
    omega
  · simp only [widthOnFirstLine, String.toList_ofList, takeWhile_append_newline]
  · have reverse_eq : (before ++ '\n' :: (between ++ '\n' :: after)).reverse =
        after.reverse ++ '\n' :: (before ++ '\n' :: between).reverse := by
      simp
    have reverse_eq' : (before ++ '\n' :: '\n' :: after).reverse =
        after.reverse ++ '\n' :: (before ++ ['\n']).reverse := by
      simp
    simp only [widthOnLastLine, String.toList_ofList, reverse_eq, reverse_eq',
      takeWhile_append_newline]

/-- One change that a writer may make to a gap.  The columns in front of the first token of a
text are its indentation, so their number is not free. -/
inductive Respaces (isFirst : Prop) : String → String → Prop
  /-- Its carriage returns are left out. -/
  | returns (chars : List Char) :
      Respaces isFirst (String.ofList chars) (String.ofList (chars.filter (· != '\r')))
  /-- Other whitespace takes its columns. -/
  | whitespace {f : Char → Char} (newline : ∀ c, f c = '\n' ↔ c = '\n')
      (returns : ∀ c, f c = '\r' ↔ c = '\r') (chars : List Char) :
      Respaces isFirst (String.ofList chars) (String.ofList (chars.map f))
  /-- It takes more or fewer columns within a line. -/
  | columns {first second : String} (notFirst : ¬isFirst) (flat : height first = 0)
      (flat' : height second = 0)
      (wide : widthOnFirstLine first = 0 ↔ widthOnFirstLine second = 0) :
      Respaces isFirst first second
  /-- A blank line takes whitespace, or further blank lines. -/
  | blankLines (before between after : List Char) :
      Respaces isFirst (String.ofList (before ++ '\n' :: '\n' :: after))
        (String.ofList (before ++ '\n' :: (between ++ '\n' :: after)))

/-- A gap comes to be another by such changes, each made or undone. -/
def Respaced (isFirst : Prop) : String → String → Prop :=
  Relation.EqvGen (Respaces isFirst)

theorem Respaces.agree (change : Respaces isFirst first second) : Agree isFirst first second := by
  cases change with
  | returns chars => exact (agree_filter_return isFirst chars).symm
  | whitespace newline returns chars => exact (agree_map isFirst newline returns chars).symm
  | columns notFirst flat flat' wide => exact agree_of_height_eq_zero notFirst flat flat' wide
  | blankLines before between after => exact agree_of_blank_line isFirst before between after

theorem Respaced.agree (respaced : Respaced isFirst first second) :
    Agree isFirst first second := by
  induction respaced with
  | rel _ _ change => exact change.agree
  | refl gap => exact .refl isFirst gap
  | symm _ _ _ ih => exact ih.symm
  | trans _ _ _ _ _ ih ih' => exact ih.trans ih'

end Gap

end OperatorMarkup
