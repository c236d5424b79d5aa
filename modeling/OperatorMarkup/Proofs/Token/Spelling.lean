import OperatorMarkup.Proofs.Token.Run

/-!
# What a text is read into

The tokens of a text, each behind the gap before it, spell the text up to its end or to
the character that starts none.  A gap takes all the whitespace there is, and a word or a
run of operator characters all that its rule matches, so two of a kind never touch.
-/

namespace OperatorMarkup

variable {lexicon : Lexicon} {source : Source}

/-! ## Words -/

/-- A text is made of unreserved characters and of characters behind an escape. -/
inductive IsWord (reserved : List Char) (escape : Char) : List Char → Prop
  | nil : IsWord reserved escape []
  | plain {c : Char} {text : List Char} (unreserved : c ∉ reserved)
      (rest : IsWord reserved escape text) : IsWord reserved escape (c :: text)
  | escaped {c : Char} {text : List Char} (rest : IsWord reserved escape text) :
      IsWord reserved escape (escape :: c :: text)

/-- What a word rule matches is a word, behind which it matches nothing more. -/
theorem Pattern.wordLength_cut {reserved : List Char} {escape : Char} (counted : Nat)
    (text : List Char) :
    IsWord reserved escape (text.take (wordLength reserved escape counted text - counted)) ∧
      wordLength reserved escape 0
        (text.drop (wordLength reserved escape counted text - counted)) = 0 := by
  induction counted, text using wordLength.induct reserved escape with
  | case1 counted => simp [wordLength, IsWord.nil]
  | case2 counted => simp [wordLength, IsWord.nil]
  | case3 counted c rest ih =>
      have least := (wordLength_bounds reserved escape (counted + 2) rest).1
      simp only [wordLength, if_true]
      rw [show wordLength reserved escape (counted + 2) rest - counted =
        wordLength reserved escape (counted + 2) rest - (counted + 2) + 1 + 1 by omega]
      exact ⟨.escaped ih.1, ih.2⟩
  | case4 counted c rest notEscape member =>
      rw [wordLength_of_reserved notEscape member, Nat.sub_self]
      exact ⟨.nil, wordLength_of_reserved notEscape member 0 rest⟩
  | case5 counted c rest notEscape notMember ih =>
      have least := (wordLength_bounds reserved escape (counted + 1) rest).1
      rw [wordLength_of_unreserved notEscape notMember]
      rw [show wordLength reserved escape (counted + 1) rest - counted =
        wordLength reserved escape (counted + 1) rest - (counted + 1) + 1 by omega]
      exact ⟨.plain (by simpa using notMember) ih.1, ih.2⟩

theorem takeWhile_drop_takeWhile (p : Char → Bool) (text : List Char) :
    (text.drop (text.takeWhile p).length).takeWhile p = [] := by
  induction text with
  | nil => rfl
  | cons c text ih => cases taken : p c <;> simp [taken, ih]

/-- Behind what a rule for words or operators matches, it matches nothing more. -/
theorem Rule.matchLength_drop {rule : Rule} (member : rule ∈ lexicon.rules)
    (munches : rule.lexeme = .word ∨ rule.lexeme = .operator) (text : List Char) :
    rule.matchLength (text.drop (rule.matchLength text)) = 0 := by
  rcases Lexicon.rule_cases member with rfl | rfl | rfl | rfl | rfl
  · simp at munches
  · simp at munches
  · exact congrArg List.length (takeWhile_drop_takeWhile lexicon.operators.contains text)
  · simp at munches
  · exact (Pattern.wordLength_cut 0 text).2

/-! ## Texts that tokens spell -/

/-- What tokens spell, each behind the gap before it and the last before the gap behind
it; without tokens, the given gap. -/
def spelled (gap : String) : List Token → String
  | [] => gap
  | token :: behind => token.before ++ token.text ++ spelled token.after behind

/-- The error where the text read so far is followed by more, which no token starts. -/
def refusal? (read : String) : List Char → Option Error
  | [] => none
  | c :: _ => some (.noToken (.between read.utf8ByteSize (read.utf8ByteSize + c.utf8Size)))

/-- A token has a text of its own and whitespace on either side, all that there is before
it. -/
structure Token.Exact (lexicon : Lexicon) (source : Source) (token : Token) : Prop where
  nonempty : token.text ≠ ""
  slice_eq : source.slice token.span = token.text
  before : lexicon.Blank token.before
  after : lexicon.Blank token.after
  starts : ∀ c ∈ token.text.toList.head?, lexicon.isWhitespace c = false
  word : token.lexeme = .word → IsWord lexicon.reserved lexicon.escape token.text.toList

/-- Two tokens share the gap between them, which is not empty between two words or two
operators. -/
structure Token.Precedes (first second : Token) : Prop where
  gap_eq : first.after = second.before
  apart : first.lexeme = second.lexeme → first.lexeme = .word ∨ first.lexeme = .operator →
    first.after ≠ ""

namespace Cursor

variable {cursor last : Cursor} {size start : Nat} {tokens : List Token}

/-- A cursor stands before a character that is no whitespace, or at the end. -/
def Skipped (lexicon : Lexicon) (cursor : Cursor) : Prop :=
  ∀ c ∈ cursor.rest.head?, lexicon.isWhitespace c = false

theorem Reads.skipped (reads : Reads lexicon size cursor tokens last)
    (skipped : cursor.Skipped lexicon) : last.Skipped lexicon := by
  induction reads with
  | stop => exact skipped
  | token _ _ ih => exact ih (skipGap_starts _ _)

/-- The tokens of a run spell the text that it reads. -/
theorem Reads.spelled_eq (reads : Reads lexicon size cursor tokens last) :
    cursor.gap ++ String.ofList cursor.rest =
      spelled cursor.gap tokens ++ String.ofList last.rest := by
  induction reads with
  | stop => rfl
  | @token cursor last rule tokens found _ ih =>
      have split_eq : String.ofList cursor.rest =
          (cursor.take lexicon size rule).1.text ++
            ((cursor.take lexicon size rule).2.gap ++
              String.ofList (cursor.take lexicon size rule).2.rest) := by
        rw [take_next, ← skipGap_split]
        exact rest_split cursor rule
      rw [split_eq, ih, spelled, take_after]
      simp only [String.append_assoc]
      rfl

theorem take_exact {rule : Rule} (stands : cursor.Stands lexicon source start)
    (skipped : cursor.Skipped lexicon) (found : lexicon.firstRule? cursor.rest = some rule) :
    (cursor.take lexicon source.size rule).1.Exact lexicon source := by
  have applies := Lexicon.applies_of_firstRule? found
  have nonempty := (take_fits source.size found).text_ne_empty (take_isRead source found).written
  constructor
  · exact fun empty => nonempty (by rw [empty]; rfl)
  · exact (take_covers stands source.size rule).slice_eq
  · exact stands.blank
  · exact (take_stands stands source.size rule).blank
  · intro c member
    obtain ⟨first, rest, rest_eq⟩ :=
      List.exists_cons_of_ne_nil (Lexicon.ne_nil_of_firstRule? found)
    apply skipped
    rw [rest_eq] at applies ⊢
    change c ∈ (String.ofList _).toList.head? at member
    rw [String.toList_ofList, rest_eq, Lexicon.take_of_applies applies] at member
    exact member
  · intro lexeme_eq
    change rule.lexeme = .word at lexeme_eq
    rcases Lexicon.rule_cases (Lexicon.mem_rules_of_firstRule? found) with
      rfl | rfl | rfl | rfl | rfl
    case inr.inr.inr.inr =>
      change IsWord _ _ (String.ofList _).toList
      rw [String.toList_ofList]
      exact (Pattern.wordLength_cut 0 cursor.rest).1
    all_goals contradiction

theorem Reads.exact (reads : Reads lexicon source.size cursor tokens last)
    (stands : cursor.Stands lexicon source start) (skipped : cursor.Skipped lexicon) :
    ∀ token ∈ tokens, token.Exact lexicon source := by
  induction reads generalizing start with
  | stop => simp
  | token found _ ih =>
      exact List.forall_mem_cons.mpr ⟨take_exact stands skipped found,
        ih (take_stands stands source.size _) (skipGap_starts _ _)⟩

/-- Two rules for words are the same, and so are two for operators. -/
theorem rule_eq_of_munches {first second : Rule} (firstMem : first ∈ lexicon.rules)
    (secondMem : second ∈ lexicon.rules) (same : first.lexeme = second.lexeme)
    (munches : first.lexeme = .word ∨ first.lexeme = .operator) : first = second := by
  rcases Lexicon.rule_cases firstMem with rfl | rfl | rfl | rfl | rfl <;>
    rcases Lexicon.rule_cases secondMem with rfl | rfl | rfl | rfl | rfl <;>
    simp_all

/-- The rest behind an empty gap is the whole text. -/
theorem skipGap_rest_of_gap_empty {offset : Nat} {text : List Char}
    (empty : (skipGap lexicon offset text).gap = "") :
    (skipGap lexicon offset text).rest = text := by
  have split_eq := @skipGap_split lexicon offset text
  rw [empty, String.empty_append] at split_eq
  exact (String.ofList_injective split_eq).symm

/-- Behind a word no word follows without a gap, nor an operator behind an operator. -/
theorem take_precedes {rule next : Rule} (found : lexicon.firstRule? cursor.rest = some rule)
    (foundNext : lexicon.firstRule? (cursor.take lexicon size rule).2.rest = some next) :
    (cursor.take lexicon size rule).1.Precedes
      ((cursor.take lexicon size rule).2.take lexicon size next).1 := by
  constructor
  · rfl
  · intro same munches empty
    have member := Lexicon.mem_rules_of_firstRule? found
    obtain rfl : rule = next :=
      rule_eq_of_munches member (Lexicon.mem_rules_of_firstRule? foundNext) same munches
    rw [take_after, take_next] at empty
    rw [take_next, skipGap_rest_of_gap_empty empty] at foundNext
    have applies := Lexicon.applies_of_firstRule? foundNext
    rw [Rule.applies, Rule.matchLength_drop member munches] at applies
    contradiction

theorem Reads.precedes (reads : Reads lexicon size cursor tokens last) :
    ∀ front first second back, tokens = front ++ first :: second :: back →
      first.Precedes second := by
  intro front first second back split_eq
  rw [split_eq] at reads
  obtain ⟨_, rest⟩ := reads.exists_behind
  cases rest with
  | token found behind =>
      cases behind with
      | token foundNext _ => exact take_precedes found foundNext

end Cursor

/-- Reading a text gives tokens that spell it, up to its end or to a character that no
token starts, for which the last item is an error.  Each token is what its span covers,
and two of them have between them all the whitespace that is there. -/
theorem tokenize_spells (lexicon : Lexicon) (source : Source) :
    ∃ (tokens : List Token) (gap : String) (left : List Char),
      tokenize lexicon source = stream tokens (refusal? (spelled gap tokens) left) ∧
        source.text = spelled gap tokens ++ String.ofList left ∧
        lexicon.Blank gap ∧ (∀ c ∈ left.head?, lexicon.isWhitespace c = false) ∧
        (∀ first ∈ tokens.head?, first.span.start = first.before.utf8ByteSize) ∧
        (∀ token ∈ tokens, token.Exact lexicon source) ∧
        ∀ front first second back, tokens = front ++ first :: second :: back →
          first.Precedes second := by
  have stands := source.skipGap_stands lexicon
  have skipped := @Cursor.skipGap_starts lexicon 0 source.text.toList
  obtain ⟨tokens, last, reads⟩ := Cursor.exists_reads lexicon source.size
    (Cursor.skipGap lexicon 0 source.text.toList)
  have text_eq := reads.spelled_eq
  rw [← Cursor.skipGap_split, String.ofList_toList] at text_eq
  obtain ⟨_, lastStands⟩ := reads.stands stands
  have offset_eq : last.offset =
      (spelled (Cursor.skipGap lexicon 0 source.text.toList).gap tokens).utf8ByteSize := by
    have size_eq := lastStands.size_eq
    rw [Source.size, text_eq, String.utf8ByteSize_append] at size_eq
    omega
  refine ⟨tokens, _, last.rest, ?_, text_eq, stands.blank, reads.skipped skipped, ?_,
    reads.exact stands skipped, reads.precedes⟩
  · rw [tokenize, reads.readAll_eq, stream, Cursor.ending, offset_eq]
    cases last.rest <;> rfl
  · intro first member
    cases reads with
    | stop => contradiction
    | token =>
        obtain rfl := Option.some.inj member
        exact Nat.zero_add _

end OperatorMarkup
