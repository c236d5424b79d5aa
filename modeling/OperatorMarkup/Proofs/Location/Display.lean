import OperatorMarkup.Location
import OperatorMarkup.Proofs.Position
import OperatorMarkup.Proofs.Span

/-!
# Text forms of locations

A number ends where its digits do, so a line and a column can be read back from the
front of a text, and what is left tells the four forms of a range apart.  A range names
the first and the last character of a span by their positions, which fix the span.
-/

namespace OperatorMarkup

/-! ## Numbers in front of a text -/

/-- A text does not go on with a digit. -/
def EndsNumber (text : String) : Prop :=
  ∀ c ∈ text.toList.head?, c.isDigit = false

theorem endsNumber_empty : EndsNumber "" := by
  simp [EndsNumber]

theorem takeWhile_decimal {rest : String} (ends : EndsNumber rest) (n : Nat) :
    (toString n ++ rest).toList.takeWhile Char.isDigit = (toString n).toList := by
  have digits : ∀ c ∈ (toString n).toList, c.isDigit = true := by
    rw [Nat.toString_eq_repr, Nat.toList_repr]
    exact fun c member => Nat.isDigit_of_mem_toDigits (by decide) (by decide) member
  have none : rest.toList.takeWhile Char.isDigit = [] := by
    cases rest_eq : rest.toList with
    | nil => rfl
    | cons c others =>
        have other := ends c (by rw [rest_eq]; rfl)
        rw [List.takeWhile_cons, other]
        rfl
  rw [String.toList_append, List.takeWhile_append_of_pos digits, none, List.append_nil]

/-- A number can be read back from its digits. -/
theorem decimal_inj {m n : Nat} (same : toString m = toString n) : m = n := by
  have digits := congrArg (fun text : String => Nat.ofDigitChars 10 text.toList 0) same
  simpa [Nat.toString_eq_repr] using digits

theorem decimal_append_inj {m n : Nat} {rest rest' : String} (ends : EndsNumber rest)
    (ends' : EndsNumber rest') (same : toString m ++ rest = toString n ++ rest') :
    m = n ∧ rest = rest' := by
  have digits_eq : toString m = toString n := by
    rw [← String.toList_inj, ← takeWhile_decimal ends, same, takeWhile_decimal ends']
  rw [digits_eq] at same
  exact ⟨decimal_inj digits_eq, String.append_right_inj _ |>.mp same⟩

theorem Position.eq_of_parts {first second : Position} (line_eq : first.line = second.line)
    (column_eq : first.column = second.column) : first = second := by
  cases first
  cases second
  cases line_eq
  cases column_eq
  rfl

theorem Position.display_append_inj {first second : Position} {rest rest' : String}
    (ends : EndsNumber rest) (ends' : EndsNumber rest')
    (same : first.display ++ rest = second.display ++ rest') : first = second ∧ rest = rest' := by
  have colon : ∀ text, EndsNumber (":" ++ text) := by
    simp [EndsNumber]
  rw [display, display, String.append_assoc, String.append_assoc, String.append_assoc,
    String.append_assoc] at same
  obtain ⟨line_eq, behind_line⟩ := decimal_append_inj (colon _) (colon _) same
  obtain ⟨column_eq, rest_eq⟩ :=
    decimal_append_inj ends ends' (String.append_right_inj _ |>.mp behind_line)
  exact ⟨eq_of_parts line_eq column_eq, rest_eq⟩

theorem Position.display_inj {first second : Position}
    (same : first.display = second.display) : first = second :=
  (display_append_inj endsNumber_empty endsNumber_empty (congrArg (· ++ "") same)).1

/-- A column alone is no line and column. -/
theorem toString_ne_display (n : Nat) (position : Position) : toString n ≠ position.display := by
  intro same
  have colon : EndsNumber (":" ++ toString position.column) := by
    simp [EndsNumber]
  rw [Position.display, String.append_assoc, ← String.append_empty (s := toString n)] at same
  have rest_eq := (decimal_append_inj endsNumber_empty colon same).2
  simp at rest_eq

/-! ## Ranges -/

namespace Location

/-- How a range names a last character that is not the first one. -/
def lastPart (first last : Position) : String :=
  if first.line = last.line then toString last.column else last.display

/-- What a range adds to the position of its first character. -/
def rangeRest (first : Position) : Option Position → String
  | none => "<"
  | some last => if first = last then "" else "-" ++ lastPart first last

theorem displayRange_eq (first : Position) (last : Option Position) :
    displayRange first last = first.display ++ rangeRest first last := by
  cases last with
  | none => rfl
  | some last =>
      rw [displayRange, rangeRest, lastPart]
      split
      · exact String.append_empty.symm
      · split <;> rw [String.append_assoc]

theorem endsNumber_rangeRest (first : Position) (last : Option Position) :
    EndsNumber (rangeRest first last) := by
  cases last with
  | none => simp [rangeRest, EndsNumber]
  | some last =>
      rw [rangeRest]
      split <;> simp [EndsNumber]

theorem lastPart_inj {first last last' : Position}
    (same : lastPart first last = lastPart first last') : last = last' := by
  rw [lastPart, lastPart] at same
  split at same
  · next line_eq =>
      split at same
      · next line_eq' =>
          exact Position.eq_of_parts (line_eq.symm.trans line_eq') (decimal_inj same)
      · exact absurd same (toString_ne_display _ _)
  · split at same
    · exact absurd same.symm (toString_ne_display _ _)
    · exact Position.display_inj same

theorem dash_append_ne_empty (text : String) : "-" ++ text ≠ "" := by
  intro same
  have lists_eq := congrArg String.toList same
  simp at lists_eq

theorem dash_append_ne_angle (text : String) : "-" ++ text ≠ "<" := by
  intro same
  have lists_eq := congrArg String.toList same
  simp at lists_eq

/-- The four forms of a range tell its last character. -/
theorem rangeRest_inj {first : Position} {last last' : Option Position}
    (same : rangeRest first last = rangeRest first last') : last = last' := by
  cases last with
  | none =>
      cases last' with
      | none => rfl
      | some last' =>
          rw [rangeRest, rangeRest] at same
          split at same
          · contradiction
          · exact absurd same.symm (dash_append_ne_angle _)
  | some last =>
      cases last' with
      | none =>
          rw [rangeRest, rangeRest] at same
          split at same
          · contradiction
          · exact absurd same (dash_append_ne_angle _)
      | some last' =>
          rw [rangeRest, rangeRest] at same
          split at same
          · next first_eq =>
              split at same
              · next first_eq' => rw [← first_eq, ← first_eq']
              · exact absurd same.symm (dash_append_ne_empty _)
          · split at same
            · exact absurd same (dash_append_ne_empty _)
            · rw [lastPart_inj (String.append_right_inj _ |>.mp same)]

theorem displayRange_inj {first first' : Position} {last last' : Option Position}
    (same : displayRange first last = displayRange first' last') :
    first = first' ∧ last = last' := by
  rw [displayRange_eq, displayRange_eq] at same
  obtain ⟨rfl, rest_eq⟩ := Position.display_append_inj (endsNumber_rangeRest _ _)
    (endsNumber_rangeRest _ _) same
  exact ⟨rfl, rangeRest_inj rest_eq⟩

/-! ## First and last characters -/

variable {source : Source} {span : Span} {text front : String} {c : Char}

theorem last?_of_empty (covers : source.Covers span "") :
    (Location.mk source span).last? = none := by
  rw [last?, Location.text, covers.slice_eq]
  rfl

/-- The last character of a text stands behind all others. -/
theorem last?_of_push (covers : source.Covers span (front.push c)) :
    (Location.mk source span).last? =
      some (source.position (span.start + front.utf8ByteSize)) := by
  have size_eq : span.stop - c.utf8Size = span.start + front.utf8ByteSize := by
    rw [covers.stop_eq, String.utf8ByteSize_push]
    omega
  rw [last?, Location.text, covers.slice_eq, String.toList_push, List.getLast?_concat]
  simp only [Option.map_some, size_eq]

/-! ## Spans from their text forms -/

/-- The position of the last character tells where a span stops. -/
theorem stop_eq_of_last?_eq {other : Span} (cuts : source.Cuts span) (cuts' : source.Cuts other)
    (start_eq : span.start = other.start)
    (last_eq : (Location.mk source span).last? = (Location.mk source other).last?) :
    span.stop = other.stop := by
  obtain ⟨text, covers⟩ := cuts.exists_covers
  obtain ⟨text', covers'⟩ := cuts'.exists_covers
  cases text using String.push_induction with
  | empty =>
      cases text' using String.push_induction with
      | empty => rw [covers.stop_eq, covers'.stop_eq, start_eq]
      | push front' c' _ =>
          rw [last?_of_empty covers, last?_of_push covers'] at last_eq
          contradiction
  | push front c _ =>
      cases text' using String.push_induction with
      | empty =>
          rw [last?_of_push covers, last?_of_empty covers'] at last_eq
          contradiction
      | push front' c' _ =>
          have last := covers.holds_last
          have last' := covers'.holds_last
          rw [last?_of_push covers, last?_of_push covers', Option.some.injEq] at last_eq
          have place_eq := Source.position_inj last.cut last'.cut last_eq
          rw [← place_eq] at last'
          obtain rfl := last.char_eq last'
          rw [covers.stop_eq, covers'.stop_eq, String.utf8ByteSize_push, String.utf8ByteSize_push,
            ← Nat.add_assoc, place_eq, Nat.add_assoc]

/-- Two spans over one source that is cut between characters have one text form only where they
are equal. -/
theorem display_eq_iff (source : Source) (first second : Span) (firstCuts : source.Cuts first)
    (secondCuts : source.Cuts second) :
    (Location.mk source first).display = (Location.mk source second).display ↔
      first = second := by
  constructor
  · intro same
    rw [display, display] at same
    obtain ⟨first_eq, last_eq⟩ := displayRange_inj (String.append_right_inj _ |>.mp same)
    have start_eq := Source.position_inj firstCuts.1 secondCuts.1 first_eq
    exact Span.eq_of_ends start_eq (stop_eq_of_last?_eq firstCuts secondCuts start_eq last_eq)
  · rintro rfl
    rfl

/-- Two lines, with a character of two bytes in the first one. -/
def twoLines : Source :=
  { text := "é\nab", origin := some "doc.q" }

example : (Location.mk twoLines (.between 0 4)).display = "doc.q:1:1-2:1" := by
  cbv

theorem display_eq_iff_twoLines :
    twoLines.Cuts (.between 0 3) ∧ twoLines.Cuts (.between 0 4) ∧
      (Location.mk twoLines (.between 0 3)).display ≠
        (Location.mk twoLines (.between 0 4)).display := by
  have start : twoLines.Holds 0 "" := ⟨"", "é\nab", by decide, by decide⟩
  have line : twoLines.Holds 3 "" := ⟨"é\n", "ab", by decide, by decide⟩
  have letter : twoLines.Holds 4 "" := ⟨"é\na", "b", by decide, by decide⟩
  refine ⟨⟨start, line⟩, ⟨start, letter⟩, ?_⟩
  exact (display_eq_iff twoLines _ _ ⟨start, line⟩ ⟨start, letter⟩).not.mpr (by decide)

end Location

end OperatorMarkup
