import OperatorMarkup.Source

/-!
# Texts at a place of a source

A text stands at an offset of a source where the source has something before it
and something behind it.  Texts at adjoining places join into one, and a text
can be taken apart at any of its characters, so places never have to be compared
byte by byte.
-/

namespace OperatorMarkup

namespace Source

variable {source : Source} {start : Nat} {text first second : String}

/-- A text stands at an offset of a source. -/
def Holds (source : Source) (start : Nat) (text : String) : Prop :=
  ∃ before behind, source.text = before ++ text ++ behind ∧ before.utf8ByteSize = start

/-- A text stands at a span of a source and fills it. -/
structure Covers (source : Source) (span : Span) (text : String) : Prop where
  holds : source.Holds span.start text
  stop_eq : span.stop = span.start + text.utf8ByteSize

theorem sliceBytes_zero (kept behind : String) :
    sliceBytes (kept ++ behind) 0 kept.utf8ByteSize = kept := by
  have slice := sliceBytes_append "" kept behind
  simpa using slice

namespace Holds

theorem whole (source : Source) : source.Holds 0 source.text :=
  ⟨"", "", by simp, rfl⟩

/-- The rest of a source behind an offset is given by the offset. -/
theorem eq_append (holds : source.Holds start text) {before behind : String}
    (text_eq : source.text = before ++ behind) (size_eq : before.utf8ByteSize = start) :
    ∃ rest, behind = text ++ rest := by
  obtain ⟨other, rest, other_eq, other_size⟩ := holds
  have slice := sliceBytes_zero before behind
  have otherSlice := sliceBytes_zero other (text ++ rest)
  rw [← text_eq, size_eq] at slice
  rw [← String.append_assoc, ← other_eq, other_size, slice] at otherSlice
  rw [text_eq, otherSlice, String.append_assoc] at other_eq
  exact ⟨rest, String.append_right_inj other |>.mp other_eq⟩

theorem left (holds : source.Holds start (first ++ second)) : source.Holds start first := by
  obtain ⟨before, behind, text_eq, size_eq⟩ := holds
  exact ⟨before, second ++ behind, by rw [text_eq]; simp [String.append_assoc], size_eq⟩

theorem right (holds : source.Holds start (first ++ second)) :
    source.Holds (start + first.utf8ByteSize) second := by
  obtain ⟨before, behind, text_eq, size_eq⟩ := holds
  exact ⟨before ++ first, behind, by rw [text_eq]; simp [String.append_assoc], by simp [size_eq]⟩

/-- Texts at adjoining places stand there as one. -/
theorem append (holds : source.Holds start first)
    (next : source.Holds (start + first.utf8ByteSize) second) :
    source.Holds start (first ++ second) := by
  obtain ⟨before, behind, text_eq, size_eq⟩ := holds
  obtain ⟨rest, rfl⟩ := next.eq_append text_eq (by simp [size_eq])
  exact ⟨before, rest, by rw [text_eq]; simp [String.append_assoc], size_eq⟩

/-- Between two offsets that a source can be cut at stands a text. -/
theorem exists_between {stop : Nat} (first : source.Holds start "") (second : source.Holds stop "")
    (le : start ≤ stop) : ∃ text, source.Holds start text ∧ stop = start + text.utf8ByteSize := by
  obtain ⟨before, behind, text_eq, rfl⟩ := first
  obtain ⟨before', behind', text_eq', rfl⟩ := second
  rw [String.append_empty] at text_eq text_eq'
  have lists_eq := congrArg String.toList (text_eq.symm.trans text_eq')
  rw [String.toList_append, String.toList_append] at lists_eq
  have shown : ∃ text, before' = before ++ text := by
    rcases List.append_eq_append_iff.mp lists_eq with ⟨text, before_eq, _⟩ | ⟨text, before_eq, _⟩
    · refine ⟨String.ofList text, ?_⟩
      rw [← String.toList_inj, before_eq, String.toList_append, String.toList_ofList]
    · have size_eq := congrArg byteCount before_eq
      rw [byteCount_append, ← utf8ByteSize_eq_byteCount, ← utf8ByteSize_eq_byteCount] at size_eq
      have none : text = [] := (byteCount_eq_zero_iff text).mp (by omega)
      rw [none, List.append_nil, String.toList_inj] at before_eq
      exact ⟨"", by rw [before_eq, String.append_empty]⟩
  obtain ⟨text, rfl⟩ := shown
  exact ⟨text, ⟨before, behind', text_eq', rfl⟩, String.utf8ByteSize_append⟩

/-- A source can be cut in front of each text that stands in it. -/
theorem cut (holds : source.Holds start text) : source.Holds start "" := by
  rw [← String.empty_append (s := text)] at holds
  exact holds.left

/-- One character at most stands at an offset. -/
theorem char_eq {c c' : Char} (holds : source.Holds start (.singleton c))
    (other : source.Holds start (.singleton c')) : c = c' := by
  obtain ⟨before, behind, text_eq, size_eq⟩ := holds
  rw [String.append_assoc] at text_eq
  obtain ⟨rest, rest_eq⟩ := other.eq_append text_eq size_eq
  have lists_eq := congrArg String.toList rest_eq
  simp only [String.toList_append, String.toList_singleton] at lists_eq
  exact List.head_eq_of_cons_eq lists_eq

theorem le_size (holds : source.Holds start text) :
    start + text.utf8ByteSize ≤ source.size := by
  obtain ⟨before, behind, text_eq, rfl⟩ := holds
  rw [size, text_eq]
  simp

theorem sliceBytes_eq (holds : source.Holds start text) :
    sliceBytes source.text start (start + text.utf8ByteSize) = text := by
  obtain ⟨before, behind, text_eq, rfl⟩ := holds
  rw [text_eq]
  exact sliceBytes_append before text behind

end Holds

namespace Covers

variable {span : Span}

theorem slice_eq (covers : source.Covers span text) : source.slice span = text := by
  rw [slice, covers.stop_eq]
  exact covers.holds.sliceBytes_eq

theorem stop_le_size (covers : source.Covers span text) : span.stop ≤ source.size := by
  rw [covers.stop_eq]
  exact covers.holds.le_size

/-- The last character of what a span covers stands behind all others. -/
theorem holds_last {c : Char} (covers : source.Covers span (text.push c)) :
    source.Holds (span.start + text.utf8ByteSize) (.singleton c) := by
  have holds := covers.holds
  rw [← String.append_singleton] at holds
  exact holds.right

end Covers

/-- Both ends of a span fall between characters of a source, or at an end of it. -/
def Cuts (source : Source) (span : Span) : Prop :=
  source.Holds span.start "" ∧ source.Holds span.stop ""

theorem Cuts.exists_covers {span : Span} (cuts : source.Cuts span) :
    ∃ text, source.Covers span text := by
  obtain ⟨text, holds, stop_eq⟩ := cuts.1.exists_between cuts.2 span.start_le_stop
  exact ⟨text, holds, stop_eq⟩

end Source

end OperatorMarkup
