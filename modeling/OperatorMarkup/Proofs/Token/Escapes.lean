import Mathlib.Algebra.Ring.Parity
import Mathlib.Data.List.DropRight
import OperatorMarkup.Proofs.Token.Spelling

/-!
# Where reading fails

Some rule reads every character that is not whitespace, but for an escape at the end of the
text.  Where the classes of a lexicon are apart, no token ends in the middle of an escaped
pair, so whether the last escape of a text is free depends on the number of escapes before it
alone.
-/

namespace OperatorMarkup

/-! ## Escapes of a text -/

/-- The last character of a text is an escape that no escape before it takes. -/
def dangles (escape : Char) : List Char → Bool
  | [] => false
  | c :: rest =>
      if c = escape then
        match rest with
        | [] => true
        | _ :: rest => dangles escape rest
      else dangles escape rest

/-- The number of escapes that a text ends in. -/
def escapesAtEnd (escape : Char) (text : List Char) : Nat :=
  (text.rtakeWhile (· == escape)).length

section Dangling

variable {escape c : Char} {text front : List Char}

theorem dangles_of_ne (notEscape : c ≠ escape) (text : List Char) :
    dangles escape (c :: text) = dangles escape text := by
  rw [dangles.eq_def]
  simp only [notEscape, if_false]

/-- What is taken from the end of a list reaches its first element only where it is the whole
list. -/
theorem rtakeWhile_cons {α : Type} (p : α → Bool) (first : α) (rest : List α) :
    (first :: rest).rtakeWhile p =
      if (first :: rest).all p then first :: rest else rest.rtakeWhile p := by
  induction rest using List.reverseRecOn with
  | nil =>
      rw [← List.nil_append [first], List.rtakeWhile_concat]
      simp
  | append_singleton rest last ih =>
      rw [← List.cons_append, List.rtakeWhile_concat, List.rtakeWhile_concat, ih]
      cases here : p last <;> simp [here, apply_ite (· ++ [last])]

/-- A character in front of a text counts where it and all behind it are escapes. -/
theorem escapesAtEnd_cons (escape c : Char) (text : List Char) :
    escapesAtEnd escape (c :: text) =
      escapesAtEnd escape text + if (c :: text).all (· == escape) then 1 else 0 := by
  rw [escapesAtEnd, rtakeWhile_cons]
  split
  · next all =>
      rw [List.all_cons, Bool.and_eq_true, List.all_eq_true] at all
      rw [escapesAtEnd, List.rtakeWhile_eq_self_iff.mpr all.2, List.length_cons]
  · rfl

theorem escapesAtEnd_of_ne (notEscape : c ≠ escape) (text : List Char) :
    escapesAtEnd escape (c :: text) = escapesAtEnd escape text := by
  simp [escapesAtEnd_cons, notEscape]

/-- An escape and the character behind it, in front of a text, count both or not at all. -/
theorem odd_escapesAtEnd_pair (escape c : Char) (text : List Char) :
    Odd (escapesAtEnd escape (escape :: c :: text)) ↔ Odd (escapesAtEnd escape text) := by
  have same : (escape :: c :: text).all (· == escape) = (c :: text).all (· == escape) := by
    simp
  rw [escapesAtEnd_cons, escapesAtEnd_cons, same]
  split <;> simp [Nat.odd_iff, Nat.add_assoc]

/-- The last escape of a text is free where the text ends in an odd number of them. -/
theorem dangles_iff_odd (escape : Char) (text : List Char) :
    dangles escape text = true ↔ Odd (escapesAtEnd escape text) := by
  induction text using dangles.induct escape with
  | case1 => simp [dangles, escapesAtEnd]
  | case2 => simp [dangles, escapesAtEnd, List.rtakeWhile]
  | case3 c rest ih => rw [odd_escapesAtEnd_pair, ← ih, dangles, if_pos rfl]
  | case4 c rest notEscape ih => rw [dangles_of_ne notEscape, escapesAtEnd_of_ne notEscape, ih]

/-- Characters that are no escapes take nothing behind them. -/
theorem dangles_append_of_forall_ne (plain : ∀ c ∈ front, c ≠ escape) (text : List Char) :
    dangles escape (front ++ text) = dangles escape text := by
  induction front with
  | nil => rfl
  | cons c front ih =>
      rw [List.forall_mem_cons] at plain
      rw [List.cons_append, dangles_of_ne plain.1, ih plain.2]

theorem dangles_dropWhile {p : Char → Bool} (plain : ∀ c, p c = true → c ≠ escape)
    (text : List Char) : dangles escape (text.dropWhile p) = dangles escape text := by
  have taken : ∀ c ∈ text.takeWhile p, c ≠ escape := fun c member =>
    plain c (List.mem_takeWhile_imp member)
  rw [← dangles_append_of_forall_ne taken, List.takeWhile_append_dropWhile]

/-- A word takes nothing behind it. -/
theorem IsWord.dangles_append {reserved : List Char} (word : IsWord reserved escape front)
    (member : escape ∈ reserved) (text : List Char) :
    dangles escape (front ++ text) = dangles escape text := by
  induction word with
  | nil => rfl
  | plain unreserved _ ih =>
      rw [List.cons_append, dangles_of_ne (ne_of_mem_of_not_mem member unreserved).symm, ih]
  | escaped _ ih => rw [List.cons_append, List.cons_append, dangles, if_pos rfl, ih]

end Dangling

/-! ## Rules that read a character -/

variable {lexicon : Lexicon} {source : Source} {c : Char} {rest text : List Char} {rule : Rule}

namespace Lexicon

/-- A text that no rule of the first character's bucket reads is read by no rule at all. -/
theorem applies_eq_false_of_firstRule?_eq_none (none : lexicon.firstRule? (c :: rest) = none) :
    ∀ rule ∈ lexicon.rules, rule.applies (c :: rest) = false := by
  rw [firstRule?_cons, List.find?_eq_none] at none
  intro rule member
  exact eq_false_of_ne_true (none rule member)

theorem word_mem_rules (lexicon : Lexicon) :
    ⟨.identifier, .word, .word lexicon.reserved lexicon.escape⟩ ∈ lexicon.rules := by
  rw [rules_eq]
  exact List.mem_append_right _ List.mem_cons_self

theorem operator_mem_rules (member : c ∈ lexicon.operators) :
    ⟨.operator .ambiguous, .operator, .run lexicon.operators⟩ ∈ lexicon.rules := by
  have some := List.isEmpty_eq_false_iff.mpr (List.ne_nil_of_mem member)
  simp [rules_eq, some]

theorem separator_mem_rules (member : c ∈ lexicon.separators) :
    ⟨.operator .infixOp, .separator, .one lexicon.separators⟩ ∈ lexicon.rules := by
  have some := List.isEmpty_eq_false_iff.mpr (List.ne_nil_of_mem member)
  simp [rules_eq, some]

/-- No rule reads a character that is not whitespace only where it is an escape at the end
of the text. -/
theorem eq_escape_of_firstRule?_eq_none (notBlank : lexicon.isWhitespace c = false)
    (none : lexicon.firstRule? (c :: rest) = none) : c :: rest = [lexicon.escape] := by
  have refused := applies_eq_false_of_firstRule?_eq_none none
  have notOpener : c ∉ lexicon.opens := fun member => by
    simp [firstRule?_eq_opener member] at none
  have notCloser : c ∉ lexicon.closes := fun member => by
    simp [firstRule?_eq_closer notOpener member] at none
  have notOperator : c ∉ lexicon.operators := fun member => by
    simpa [Rule.applies, Rule.matchLength, Pattern.length, member] using
      refused _ (operator_mem_rules member)
  have notSeparator : c ∉ lexicon.separators := fun member => by
    simpa [Rule.applies, Rule.matchLength, Pattern.length, member] using
      refused _ (separator_mem_rules member)
  have notWhitespace : c ∉ lexicon.whitespace := by
    simpa [isWhitespace] using notBlank
  have notWord : Pattern.wordLength lexicon.reserved lexicon.escape 0 (c :: rest) = 0 := by
    simpa [Rule.applies, Rule.matchLength, Pattern.length] using refused _ lexicon.word_mem_rules
  by_cases escape : c = lexicon.escape
  · subst escape
    cases rest with
    | nil => rfl
    | cons next rest =>
        rw [Pattern.wordLength, if_pos rfl] at notWord
        have least := (Pattern.wordLength_bounds lexicon.reserved lexicon.escape (0 + 2) rest).1
        omega
  · have unreserved : ¬ lexicon.reserved.contains c = true := by
      simp [CharClasses.reserved, notOpener, notCloser, notOperator, notSeparator, notWhitespace,
        escape]
    rw [Pattern.wordLength_of_unreserved escape unreserved] at notWord
    have least := (Pattern.wordLength_bounds lexicon.reserved lexicon.escape (0 + 1) rest).1
    omega

end Lexicon

/-! ## Classes that are apart -/

/-- The classes of characters, brackets of both sides together. -/
def CharClasses.classes (classes : CharClasses) : List (List Char) :=
  [classes.opens ++ classes.closes, classes.operators, classes.separators, classes.whitespace,
    [classes.escape]]

/-- No character is in two classes of a lexicon. -/
def Lexicon.HasDisjointClasses (lexicon : Lexicon) : Prop :=
  lexicon.classes.Pairwise List.Disjoint

theorem Lexicon.standard_hasDisjointClasses : Lexicon.standard.HasDisjointClasses := by
  have apart : Lexicon.standard.classes.Pairwise fun first second =>
      (first.all fun c => !second.contains c) = true := by
    decide
  apply apart.imp
  intro first second each c here there
  have absent := List.all_eq_true.mp each c here
  rw [List.contains_iff_mem.mpr there] at absent
  contradiction

/-- The escape is in no other class. -/
theorem Lexicon.HasDisjointClasses.ne_escape (disjoint : lexicon.HasDisjointClasses)
    (member : c ∈ lexicon.opens ∨ c ∈ lexicon.closes ∨ c ∈ lexicon.operators ∨
      c ∈ lexicon.separators ∨ c ∈ lexicon.whitespace) : c ≠ lexicon.escape := by
  rintro rfl
  simp only [HasDisjointClasses, CharClasses.classes, List.pairwise_cons, List.mem_cons,
    forall_eq_or_imp, List.disjoint_singleton, List.mem_append] at disjoint
  tauto

/-- Behind what a rule reads, the last escape is free where it was before. -/
theorem Rule.dangles_drop (disjoint : lexicon.HasDisjointClasses) (member : rule ∈ lexicon.rules)
    (text : List Char) :
    dangles lexicon.escape (text.drop (rule.matchLength text)) = dangles lexicon.escape text := by
  have one : ∀ chars : List Char, (∀ c ∈ chars, c ≠ lexicon.escape) →
      dangles lexicon.escape (text.drop (Pattern.length (.one chars) text)) =
        dangles lexicon.escape text := by
    intro chars plain
    cases text with
    | nil => rfl
    | cons c rest =>
        rw [Pattern.length]
        split
        · next here => exact (dangles_of_ne (plain c (List.elem_iff.mp here)) rest).symm
        · rfl
  rcases Lexicon.rule_cases member with rfl | rfl | rfl | rfl | rfl
  · exact one _ fun c here => disjoint.ne_escape (.inl here)
  · exact one _ fun c here => disjoint.ne_escape (.inr (.inl here))
  · have dropped := @List.drop_left _ (text.takeWhile lexicon.operators.contains)
      (text.dropWhile lexicon.operators.contains)
    rw [List.takeWhile_append_dropWhile] at dropped
    rw [Rule.matchLength, Pattern.length, dropped]
    exact dangles_dropWhile (fun _ here =>
      disjoint.ne_escape (.inr (.inr (.inl (List.elem_iff.mp here))))) text
  · exact one _ fun c here => disjoint.ne_escape (.inr (.inr (.inr (.inl here))))
  · have word := (@Pattern.wordLength_cut lexicon.reserved lexicon.escape 0 text).1
    rw [Nat.sub_zero] at word
    have taken := word.dangles_append (by simp [CharClasses.reserved])
      (text.drop (Pattern.wordLength lexicon.reserved lexicon.escape 0 text))
    rw [List.take_append_drop] at taken
    exact taken.symm

/-! ## Cursors -/

namespace Cursor

variable {cursor last : Cursor} {size start : Nat} {tokens : List Token}

/-- Behind a gap, the last escape is free where it was before. -/
theorem dangles_skipGap (disjoint : lexicon.HasDisjointClasses) (offset : Nat)
    (text : List Char) :
    dangles lexicon.escape (skipGap lexicon offset text).rest = dangles lexicon.escape text :=
  dangles_dropWhile (fun _ here =>
    disjoint.ne_escape (.inr (.inr (.inr (.inr (List.elem_iff.mp here)))))) text

/-- The text behind a cursor reaches to the end of its source. -/
theorem Stands.exists_front (stands : cursor.Stands lexicon source start) :
    ∃ front, source.text = front ++ String.ofList cursor.rest ∧
      front.utf8ByteSize = cursor.offset := by
  obtain ⟨front, behind, text_eq, offset_eq⟩ := stands.rest_holds
  have size_eq := stands.size_eq
  rw [Source.size, text_eq, String.utf8ByteSize_append, String.utf8ByteSize_append] at size_eq
  have none : behind.utf8ByteSize = 0 := by omega
  rw [String.utf8ByteSize_eq_zero_iff] at none
  rw [none, String.append_empty] at text_eq
  exact ⟨front, text_eq, offset_eq⟩

/-- Where a run ends, the last escape is free where it was before. -/
theorem Reads.dangles_eq (disjoint : lexicon.HasDisjointClasses)
    (reads : Reads lexicon size cursor tokens last) :
    dangles lexicon.escape last.rest = dangles lexicon.escape cursor.rest := by
  induction reads with
  | stop => rfl
  | @token cursor last rule tokens found _ ih =>
      rw [ih, take_next, dangles_skipGap disjoint,
        rule.dangles_drop disjoint (Lexicon.mem_rules_of_firstRule? found)]

/-- A run leaves nothing, or an escape at the end of the text. -/
theorem Reads.rest_cases (reads : Reads lexicon size cursor tokens last)
    (skipped : cursor.Skipped lexicon) : last.rest = [] ∨ last.rest = [lexicon.escape] := by
  have refused : lexicon.firstRule? last.rest = none := by
    induction reads with
    | stop none => exact none
    | token _ _ ih => exact ih (skipGap_starts _ _)
  cases rest_eq : last.rest with
  | nil => exact .inl rfl
  | cons c rest =>
      have notBlank := reads.skipped skipped c (by rw [rest_eq]; rfl)
      rw [rest_eq] at refused
      exact .inr (Lexicon.eq_escape_of_firstRule?_eq_none notBlank refused)

/-- Where a run ends in an error, that is about the last character of the text, an
escape. -/
theorem Reads.failed (reads : Reads lexicon size cursor tokens last)
    (skipped : cursor.Skipped lexicon) (stands : last.Stands lexicon source start) {error : Error}
    (member : .error error ∈ last.ending) :
    ∃ front : String, source.text = front.push lexicon.escape ∧
      error = .noToken (.between front.utf8ByteSize source.size) := by
  obtain ⟨front, text_eq, offset_eq⟩ := stands.exists_front
  have size_eq := stands.size_eq
  rcases reads.rest_cases skipped with rest_eq | rest_eq
  · simp [ending, rest_eq] at member
  · rw [rest_eq, ← String.singleton_eq_ofList] at text_eq size_eq
    rw [ending, rest_eq, List.mem_singleton, Except.error.injEq] at member
    rw [String.utf8ByteSize_singleton, ← offset_eq] at size_eq
    refine ⟨front, text_eq.trans String.append_singleton, ?_⟩
    rw [member, size_eq, offset_eq]

end Cursor

/-! ## Sources -/

/-- Reading fails only at the last character of a text, and only where that is the escape.
Where no character is in two classes, it fails where the text ends in an odd number of
escapes. -/
theorem tokenize_fails (lexicon : Lexicon) (source : Source) :
    (∀ error, .error error ∈ tokenize lexicon source → ∃ front : String,
        source.text = front.push lexicon.escape ∧
          error = .noToken (.between front.utf8ByteSize source.size)) ∧
      (lexicon.HasDisjointClasses → ((∃ error, .error error ∈ tokenize lexicon source) ↔
        Odd (escapesAtEnd lexicon.escape source.text.toList))) ∧
      Lexicon.standard.HasDisjointClasses := by
  have skipped := @Cursor.skipGap_starts lexicon 0 source.text.toList
  obtain ⟨tokens, last, reads⟩ := Cursor.exists_reads lexicon source.size
    (Cursor.skipGap lexicon 0 source.text.toList)
  obtain ⟨_, stands⟩ := reads.stands (source.skipGap_stands lexicon)
  have failed_iff : ∀ error, .error error ∈ tokenize lexicon source ↔
      .error error ∈ last.ending := by
    intro error
    rw [tokenize, reads.readAll_eq, List.mem_append]
    simp
  refine ⟨?_, ?_, Lexicon.standard_hasDisjointClasses⟩
  · intro error member
    exact reads.failed skipped stands ((failed_iff error).mp member)
  · intro disjoint
    rw [← dangles_iff_odd, ← Cursor.dangles_skipGap disjoint 0, ← reads.dangles_eq disjoint]
    simp only [failed_iff, Cursor.ending]
    rcases reads.rest_cases skipped with rest_eq | rest_eq
    · simp [rest_eq, dangles]
    · simp [rest_eq, dangles]

/-- A text that ends in three escapes, of which the last is free. -/
def danglingText : Source :=
  { text := "[a\\\\] \\\\\\" }

theorem tokenize_fails_dangling :
    Lexicon.standard.HasDisjointClasses ∧
      Odd (escapesAtEnd Lexicon.standard.escape danglingText.text.toList) ∧
      ∃ error, .error error ∈ tokenize .standard danglingText := by
  have disjoint := Lexicon.standard_hasDisjointClasses
  have odd : Odd (escapesAtEnd Lexicon.standard.escape danglingText.text.toList) := by decide
  exact ⟨disjoint, odd, ((tokenize_fails .standard danglingText).2.1 disjoint).mpr odd⟩

end OperatorMarkup
