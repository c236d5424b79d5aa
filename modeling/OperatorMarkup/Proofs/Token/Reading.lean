import OperatorMarkup.Proofs.Lexicon
import OperatorMarkup.Proofs.Token.Placement
import OperatorMarkup.Token.Reading

/-!
# Reading a token

A token that is read fits the lexeme of its rule, since brackets come first in
the table.  It covers its text, and the next cursor stands behind it and the gap
that follows.
-/

namespace OperatorMarkup

namespace Lexicon

variable {lexicon : Lexicon} {c : Char} {rest : List Char}

/-! ## The first rule that matches -/

theorem brackets_isEmpty_eq_false_of_opens (member : c ∈ lexicon.opens) :
    lexicon.brackets.isEmpty = false := by
  obtain ⟨pair, pairMem, _⟩ := List.mem_map.mp member
  exact List.isEmpty_eq_false_iff.mpr (List.ne_nil_of_mem pairMem)

theorem brackets_isEmpty_eq_false_of_closes (member : c ∈ lexicon.closes) :
    lexicon.brackets.isEmpty = false := by
  obtain ⟨pair, pairMem, _⟩ := List.mem_map.mp member
  exact List.isEmpty_eq_false_iff.mpr (List.ne_nil_of_mem pairMem)

/-- An opening bracket is read as such. -/
theorem firstRule?_eq_opener (member : c ∈ lexicon.opens) :
    lexicon.firstRule? (c :: rest) =
      some ⟨.operator .prefixOp, .opener, .one lexicon.opens⟩ := by
  simp [firstRule?_cons, rules_eq, brackets_isEmpty_eq_false_of_opens member, Rule.applies,
    Rule.matchLength, Pattern.length, member]

/-- A closing bracket that is not an opening one is read as such. -/
theorem firstRule?_eq_closer (notOpener : c ∉ lexicon.opens) (member : c ∈ lexicon.closes) :
    lexicon.firstRule? (c :: rest) =
      some ⟨.operator .suffixOp, .closer, .one lexicon.closes⟩ := by
  have refused : (⟨.operator .prefixOp, .opener, .one lexicon.opens⟩ : Rule).applies
      (c :: rest) = false := by
    simp [Rule.applies, Rule.matchLength, Pattern.length, notOpener]
  have accepted : (⟨.operator .suffixOp, .closer, .one lexicon.closes⟩ : Rule).applies
      (c :: rest) = true := by
    simp [Rule.applies, Rule.matchLength, Pattern.length, member]
  simp [firstRule?_cons, rules_eq, brackets_isEmpty_eq_false_of_closes member, refused, accepted]

theorem mem_rules_of_firstRule? {text : List Char} {rule : Rule}
    (found : lexicon.firstRule? text = some rule) : rule ∈ lexicon.rules := by
  obtain ⟨c, rest, rfl⟩ := List.exists_cons_of_ne_nil (ne_nil_of_firstRule? found)
  rw [firstRule?_cons] at found
  exact List.mem_of_find?_eq_some found

/-- A rule is for brackets of one side, for a run of operator characters, for a
separator, or for a word. -/
theorem rule_cases {rule : Rule} (member : rule ∈ lexicon.rules) :
    rule = ⟨.operator .prefixOp, .opener, .one lexicon.opens⟩ ∨
      rule = ⟨.operator .suffixOp, .closer, .one lexicon.closes⟩ ∨
      rule = ⟨.operator .ambiguous, .operator, .run lexicon.operators⟩ ∨
      rule = ⟨.operator .infixOp, .separator, .one lexicon.separators⟩ ∨
      rule = ⟨.identifier, .word, .word lexicon.reserved lexicon.escape⟩ := by
  simp only [rules_eq, List.append_assoc, List.mem_append, List.mem_ite_nil_left, List.mem_cons,
    List.not_mem_nil, or_false] at member
  rcases member with ⟨_, rfl | rfl⟩ | ⟨_, rfl⟩ | ⟨_, rfl⟩ | rfl <;> simp

theorem take_of_applies {rule : Rule} (applies : rule.applies (c :: rest) = true) :
    (c :: rest).take (rule.matchLength (c :: rest)) =
      c :: rest.take (rule.matchLength (c :: rest) - 1) := by
  simp only [Rule.applies, decide_eq_true_eq, gt_iff_lt] at applies
  obtain ⟨count, count_eq⟩ := Nat.exists_eq_succ_of_ne_zero (Nat.ne_of_gt applies)
  rw [count_eq]
  rfl

/-- What the first rule that matches reads is a token of its lexeme. -/
theorem firstRule?_spells {text : List Char} {rule : Rule}
    (found : lexicon.firstRule? text = some rule) :
    rule.lexeme.Allows rule.kind ∧ rule.lexeme.isSynthetic = false ∧
      lexicon.Spells rule.lexeme (text.take (rule.matchLength text)) := by
  have applies := applies_of_firstRule? found
  obtain ⟨c, rest, rfl⟩ := List.exists_cons_of_ne_nil (ne_nil_of_firstRule? found)
  have taken := take_of_applies applies
  by_cases opens : c ∈ lexicon.opens
  · rw [firstRule?_eq_opener opens] at found
    obtain rfl := Option.some.inj found
    refine ⟨rfl, rfl, c, opens, ?_⟩
    simp [Rule.matchLength, Pattern.length, opens]
  · by_cases closes : c ∈ lexicon.closes
    · rw [firstRule?_eq_closer opens closes] at found
      obtain rfl := Option.some.inj found
      refine ⟨rfl, rfl, c, closes, opens, ?_⟩
      simp [Rule.matchLength, Pattern.length, closes]
    · rcases rule_cases (mem_rules_of_firstRule? found) with rfl | rfl | rfl | rfl | rfl
      · simp [Rule.applies, Rule.matchLength, Pattern.length, opens] at applies
      · simp [Rule.applies, Rule.matchLength, Pattern.length, closes] at applies
      · exact ⟨.inr rfl, rfl, c, _, taken, opens, closes⟩
      · exact ⟨rfl, rfl, by rw [taken]; exact List.cons_ne_nil _ _⟩
      · exact ⟨rfl, rfl, by rw [taken]; exact List.cons_ne_nil _ _⟩

end Lexicon

/-! ## What a rule matches -/

namespace Pattern

variable {reserved : List Char} {escape c : Char}

theorem wordLength_of_reserved (notEscape : c ≠ escape) (member : reserved.contains c = true)
    (counted : Nat) (text : List Char) :
    wordLength reserved escape counted (c :: text) = counted := by
  rw [wordLength.eq_def]
  simp only [notEscape, if_false, member, if_true]

theorem wordLength_of_unreserved (notEscape : c ≠ escape) (notMember : ¬ reserved.contains c = true)
    (counted : Nat) (text : List Char) :
    wordLength reserved escape counted (c :: text) =
      wordLength reserved escape (counted + 1) text := by
  rw [wordLength.eq_def]
  simp only [notEscape, if_false, notMember, Bool.false_eq_true]

theorem wordLength_bounds (reserved : List Char) (escape : Char) (counted : Nat)
    (text : List Char) :
    counted ≤ wordLength reserved escape counted text ∧
      wordLength reserved escape counted text ≤ counted + text.length := by
  induction counted, text using wordLength.induct reserved escape with
  | case1 counted => simp [wordLength]
  | case2 counted => simp [wordLength]
  | case3 counted c rest ih =>
      simp only [wordLength, if_true, List.length_cons]
      omega
  | case4 counted c rest notEscape member =>
      rw [wordLength_of_reserved notEscape member]
      omega
  | case5 counted c rest notEscape notMember ih =>
      rw [wordLength_of_unreserved notEscape notMember, List.length_cons]
      omega

end Pattern

theorem Rule.matchLength_le (rule : Rule) (text : List Char) :
    rule.matchLength text ≤ text.length := by
  cases pattern_eq : rule.pattern with
  | one chars =>
      cases text with
      | nil => simp [matchLength, pattern_eq, Pattern.length]
      | cons c text =>
          simp only [matchLength, pattern_eq, Pattern.length, List.length_cons]
          split <;> omega
  | run chars =>
      simp only [matchLength, pattern_eq, Pattern.length]
      exact List.Sublist.length_le (List.takeWhile_sublist _)
  | word reserved escape =>
      have bounds := (Pattern.wordLength_bounds reserved escape 0 text).2
      simpa [matchLength, pattern_eq, Pattern.length] using bounds

/-- A token is not put in, takes a line where it stands alone on one, and is undecided
where it is a run of operator characters. -/
structure Token.IsRead (source : Source) (token : Token) : Prop where
  written : token.lexeme.isSynthetic = false
  lineOperator_eq : token.lineOperator = (token.lexeme == .operator && token.text.length ≥ 3 &&
    Token.standsAlone source.size token.before token.after token.span)
  undecided : token.lexeme = .operator → token.kind = .operator .ambiguous

/-! ## Cursors -/

namespace Cursor

variable {lexicon : Lexicon} {source : Source} {text behind : List Char} {cursor : Cursor}
  {rule : Rule} {start size : Nat}

/-- A cursor stands behind a gap that starts at an offset, before the rest of a
source. -/
structure Stands (lexicon : Lexicon) (source : Source) (start : Nat) (cursor : Cursor) :
    Prop where
  offset_eq : cursor.offset = start + cursor.gap.utf8ByteSize
  gap_holds : source.Holds start cursor.gap
  blank : lexicon.Blank cursor.gap
  rest_holds : source.Holds cursor.offset (String.ofList cursor.rest)
  size_eq : source.size = cursor.offset + (String.ofList cursor.rest).utf8ByteSize

/-- A text is the gap that is skipped and the rest. -/
theorem skipGap_split (offset : Nat) (text : List Char) :
    String.ofList text =
      (skipGap lexicon offset text).gap ++ String.ofList (skipGap lexicon offset text).rest := by
  simp only [skipGap, Lexicon.leadingGap]
  rw [← String.ofList_append, List.takeWhile_append_dropWhile]

/-- Skipping a gap leads to a cursor before the rest of the source. -/
theorem skipGap_stands (holds : source.Holds start (String.ofList text))
    (size_eq : source.size = start + (String.ofList text).utf8ByteSize) :
    (skipGap lexicon start text).Stands lexicon source start := by
  rw [@skipGap_split lexicon start] at holds size_eq
  constructor
  · rfl
  · exact holds.left
  · intro c member
    simp only [skipGap, Lexicon.leadingGap, String.toList_ofList] at member
    exact List.all_eq_true.mp List.all_takeWhile c member
  · exact holds.right
  · rw [size_eq, String.utf8ByteSize_append, ← Nat.add_assoc]
    rfl

/-- The same cursor with more text behind. -/
def extend (cursor : Cursor) (behind : List Char) : Cursor :=
  { cursor with rest := cursor.rest ++ behind }

theorem skipGap_append (offset : Nat) (more : (skipGap lexicon offset text).rest ≠ []) :
    skipGap lexicon offset (text ++ behind) = (skipGap lexicon offset text).extend behind := by
  change text.dropWhile lexicon.isWhitespace ≠ [] at more
  have gap_eq : (text ++ behind).takeWhile lexicon.isWhitespace =
      text.takeWhile lexicon.isWhitespace := by
    rw [List.takeWhile_append, if_neg]
    intro whole
    apply more
    have split_eq := congrArg List.length (List.takeWhile_append_dropWhile (l := text)
      (p := lexicon.isWhitespace))
    rw [List.length_append, whole] at split_eq
    exact List.eq_nil_of_length_eq_zero (by omega)
  have rest_eq : (text ++ behind).dropWhile lexicon.isWhitespace =
      text.dropWhile lexicon.isWhitespace ++ behind := by
    rw [List.dropWhile_append, if_neg (by simpa using more)]
  simp only [skipGap, Lexicon.leadingGap, gap_eq, rest_eq, extend]

/-- The rest behind a gap does not start with whitespace. -/
theorem skipGap_starts (offset : Nat) (text : List Char) :
    ∀ c ∈ (skipGap lexicon offset text).rest.head?, lexicon.isWhitespace c = false := by
  intro c member
  have first := List.head?_dropWhile_not lexicon.isWhitespace text
  change (text.dropWhile lexicon.isWhitespace).head? = some c at member
  rw [member] at first
  exact first

/-- An error where no rule matches is about the next character. -/
theorem ending_cases (stands : cursor.Stands lexicon source start) :
    cursor.ending = [] ∧ cursor.rest = [] ∨
      ∃ span : Span, cursor.ending = [.error (.noToken span)] ∧
        span.start < span.stop ∧ span.stop ≤ source.size := by
  cases rest_eq : cursor.rest with
  | nil => exact .inl ⟨by rw [ending, rest_eq], rfl⟩
  | cons c rest =>
      have positive := c.utf8Size_pos
      have size_eq := stands.size_eq
      rw [rest_eq, utf8ByteSize_ofList, byteCount_cons] at size_eq
      refine .inr ⟨_, by rw [ending, rest_eq], ?_, ?_⟩
      · simp only [Span.between_start, Span.between_stop]
        omega
      · simp only [Span.between_stop]
        omega

/-! ## Steps -/

/-- The offset behind what a rule reads. -/
def stopOf (cursor : Cursor) (rule : Rule) : Nat :=
  cursor.offset + (String.ofList (cursor.rest.take (rule.matchLength cursor.rest))).utf8ByteSize

theorem take_next (cursor : Cursor) (rule : Rule) :
    (cursor.take lexicon size rule).2 =
      skipGap lexicon (cursor.stopOf rule) (cursor.rest.drop (rule.matchLength cursor.rest)) :=
  rfl

theorem take_after (cursor : Cursor) (rule : Rule) :
    (cursor.take lexicon size rule).1.after = (cursor.take lexicon size rule).2.gap :=
  rfl

theorem take_start (cursor : Cursor) (rule : Rule) :
    (cursor.take lexicon size rule).1.span.start = cursor.offset :=
  rfl

theorem take_stop (cursor : Cursor) (rule : Rule) :
    (cursor.take lexicon size rule).1.span.stop = cursor.stopOf rule :=
  Nat.max_eq_right (Nat.le_add_right _ _)

/-- A rule reads some of the text behind a cursor. -/
theorem offset_lt_stopOf (found : lexicon.firstRule? cursor.rest = some rule) :
    cursor.offset < cursor.stopOf rule := by
  have applies := Lexicon.applies_of_firstRule? found
  obtain ⟨c, rest, rest_eq⟩ := List.exists_cons_of_ne_nil (Lexicon.ne_nil_of_firstRule? found)
  have positive := c.utf8Size_pos
  rw [stopOf, utf8ByteSize_ofList]
  rw [rest_eq] at applies ⊢
  rw [Lexicon.take_of_applies applies, byteCount_cons]
  omega

theorem stopOf_le_take_offset (cursor : Cursor) (rule : Rule) :
    cursor.stopOf rule ≤ (cursor.take lexicon size rule).2.offset :=
  Nat.le_add_right _ _

theorem rest_split (cursor : Cursor) (rule : Rule) :
    String.ofList cursor.rest =
      String.ofList (cursor.rest.take (rule.matchLength cursor.rest)) ++
        String.ofList (cursor.rest.drop (rule.matchLength cursor.rest)) := by
  rw [← String.ofList_append, List.take_append_drop]

/-- A token that is read covers its text. -/
theorem take_covers (stands : cursor.Stands lexicon source start) (size : Nat) (rule : Rule) :
    source.Covers (cursor.take lexicon size rule).1.span
      (cursor.take lexicon size rule).1.text := by
  have holds := stands.rest_holds
  rw [rest_split cursor rule] at holds
  exact ⟨holds.left, take_stop cursor rule⟩

/-- The next cursor stands behind the token. -/
theorem take_stands (stands : cursor.Stands lexicon source start) (size : Nat) (rule : Rule) :
    (cursor.take lexicon size rule).2.Stands lexicon source
      (cursor.take lexicon size rule).1.span.stop := by
  have holds := stands.rest_holds
  have size_eq := stands.size_eq
  rw [rest_split cursor rule] at holds size_eq
  rw [String.utf8ByteSize_append, ← Nat.add_assoc] at size_eq
  rw [take_stop]
  exact skipGap_stands holds.right size_eq

/-- A token that is read fits its lexeme. -/
theorem take_fits (size : Nat) (found : lexicon.firstRule? cursor.rest = some rule) :
    (cursor.take lexicon size rule).1.Fits lexicon := by
  obtain ⟨allowed, written, spelled⟩ := Lexicon.firstRule?_spells found
  refine ⟨allowed, ?_, ?_⟩
  · simpa [take, Token.read] using spelled
  · intro line
    simp only [take, Token.read, Bool.and_eq_true, beq_iff_eq, decide_eq_true_eq,
      ge_iff_le] at line ⊢
    exact line.1

/-- A token that is read is what a rule of the lexicon makes of it. -/
theorem take_isRead (source : Source) (found : lexicon.firstRule? cursor.rest = some rule) :
    (cursor.take lexicon source.size rule).1.IsRead source := by
  refine ⟨(Lexicon.firstRule?_spells found).2.1, rfl, fun operator => ?_⟩
  rcases Lexicon.rule_cases (Lexicon.mem_rules_of_firstRule? found) with
    rfl | rfl | rfl | rfl | rfl <;> first | rfl | contradiction

end Cursor

theorem Source.skipGap_stands (lexicon : Lexicon) (source : Source) :
    (Cursor.skipGap lexicon 0 source.text.toList).Stands lexicon source 0 := by
  have holds := Source.Holds.whole source
  have size_eq : source.size = 0 + source.text.utf8ByteSize := (Nat.zero_add _).symm
  rw [← String.ofList_toList (s := source.text)] at holds size_eq
  exact Cursor.skipGap_stands holds size_eq

end OperatorMarkup
