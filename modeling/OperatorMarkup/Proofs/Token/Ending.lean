import Mathlib.Data.List.Find
import OperatorMarkup.Proofs.Token.Agreement
import OperatorMarkup.Proofs.Token.Run

/-!
# Whitespace behind a text

Where whitespace is apart from all other characters, no rule reads past the end of a
text into whitespace behind it, but for an escape at the very end, which no rule reads
at all.  So a text that can be read is read into the same tokens with whitespace behind
it, and the last of them has a longer gap.
-/

namespace OperatorMarkup

variable {lexicon : Lexicon} {blanks rest text : List Char} {rule : Rule}

/-- Neither whitespace nor the escape is in any other class. -/
structure Lexicon.Apart (lexicon : Lexicon) : Prop where
  blank : ∀ c ∈ lexicon.whitespace, c ∉ lexicon.opens ∧ c ∉ lexicon.closes ∧
    c ∉ lexicon.operators ∧ c ∉ lexicon.separators ∧ c ≠ lexicon.escape
  escape : lexicon.escape ∉ lexicon.opens ∧ lexicon.escape ∉ lexicon.closes ∧
    lexicon.escape ∉ lexicon.operators ∧ lexicon.escape ∉ lexicon.separators

theorem Lexicon.Apart.isWhitespace_escape (apart : lexicon.Apart) :
    lexicon.isWhitespace lexicon.escape = false := by
  rw [Bool.eq_false_iff]
  intro member
  exact (apart.blank _ (List.elem_iff.mp member)).2.2.2.2 rfl

theorem Lexicon.standard_apart : Lexicon.standard.Apart := by
  have apart : Lexicon.standard.whitespace.all (fun c => decide (c ∉ Lexicon.standard.opens ∧
      c ∉ Lexicon.standard.closes ∧ c ∉ Lexicon.standard.operators ∧
      c ∉ Lexicon.standard.separators ∧ c ≠ Lexicon.standard.escape)) = true := by decide
  exact ⟨fun c member => of_decide_eq_true (List.all_eq_true.mp apart c member), by decide⟩

/-! ## Words -/

namespace Pattern

variable {reserved : List Char} {escape : Char}

/-- Reserved characters behind a text do not make a word of it longer, but for one that
an escape at the end of the text takes. -/
theorem wordLength_append (blanks : List Char)
    (reservedAll : ∀ c ∈ blanks, c ∈ reserved ∧ c ≠ escape) (counted : Nat) (text : List Char) :
    wordLength reserved escape counted (text ++ blanks) =
        wordLength reserved escape counted text ∨
      text.drop (wordLength reserved escape counted text - counted) = [escape] ∧
        wordLength reserved escape counted text ≤
          wordLength reserved escape counted (text ++ blanks) := by
  induction counted, text using wordLength.induct reserved escape with
  | case1 counted =>
      cases blanks with
      | nil => exact .inl rfl
      | cons c blanks =>
          obtain ⟨member, notEscape⟩ := reservedAll c List.mem_cons_self
          exact .inl (wordLength_of_reserved notEscape (by simpa using member) counted blanks)
  | case2 counted =>
      -- The escape ends the text, and takes the first of the characters put behind it.
      have least := (wordLength_bounds reserved escape counted ([escape] ++ blanks)).1
      refine .inr ⟨?_, ?_⟩
      · simp [wordLength]
      · simpa [wordLength] using least
  | case3 counted c rest ih =>
      have least := (wordLength_bounds reserved escape (counted + 2) rest).1
      simp only [List.cons_append, wordLength, if_true]
      rcases ih with same | ⟨dangling, longer⟩
      · exact .inl same
      · refine .inr ⟨?_, longer⟩
        rw [show wordLength reserved escape (counted + 2) rest - counted =
          wordLength reserved escape (counted + 2) rest - (counted + 2) + 1 + 1 by omega]
        exact dangling
  | case4 counted c rest notEscape member =>
      rw [List.cons_append, wordLength_of_reserved notEscape member,
        wordLength_of_reserved notEscape member]
      exact .inl rfl
  | case5 counted c rest notEscape notMember ih =>
      have least := (wordLength_bounds reserved escape (counted + 1) rest).1
      rw [List.cons_append, wordLength_of_unreserved notEscape notMember,
        wordLength_of_unreserved notEscape notMember]
      rcases ih with same | ⟨dangling, longer⟩
      · exact .inl same
      · refine .inr ⟨?_, longer⟩
        rw [show wordLength reserved escape (counted + 1) rest - counted =
          wordLength reserved escape (counted + 1) rest - (counted + 1) + 1 by omega]
        exact dangling

end Pattern

/-! ## Rules -/

theorem takeWhile_append_of_none {p : Char → Bool} (none : ∀ c ∈ blanks, p c = false)
    (text : List Char) : (text ++ blanks).takeWhile p = text.takeWhile p := by
  induction text with
  | nil =>
      cases blanks with
      | nil => rfl
      | cons c blanks => simp [none c List.mem_cons_self]
  | cons c text ih => rw [List.cons_append, List.takeWhile_cons, List.takeWhile_cons, ih]

namespace Rule

/-- Whitespace behind a text does not make a rule match more of it, but for an escape at
the end of the text. -/
theorem matchLength_append (apart : lexicon.Apart) (member : rule ∈ lexicon.rules)
    (blank : ∀ c ∈ blanks, lexicon.isWhitespace c = true) (nonempty : text ≠ []) :
    rule.matchLength (text ++ blanks) = rule.matchLength text ∨
      text.drop (rule.matchLength text) = [lexicon.escape] ∧
        rule.matchLength text ≤ rule.matchLength (text ++ blanks) := by
  have whitespace : ∀ c ∈ blanks, c ∈ lexicon.whitespace := fun c blankMem =>
    List.elem_iff.mp (blank c blankMem)
  obtain ⟨c, rest, rfl⟩ := List.exists_cons_of_ne_nil nonempty
  rcases Lexicon.rule_cases member with rfl | rfl | rfl | rfl | rfl
  · exact .inl rfl
  · exact .inl rfl
  · refine .inl (congrArg List.length (takeWhile_append_of_none (fun c blankMem => ?_) _))
    have other := (apart.blank c (whitespace c blankMem)).2.2.1
    simpa using other
  · exact .inl rfl
  · refine Pattern.wordLength_append blanks (fun c blankMem => ?_) 0 _
    have apartBlank := apart.blank c (whitespace c blankMem)
    exact ⟨by simp [CharClasses.reserved, whitespace c blankMem], apartBlank.2.2.2.2⟩

end Rule

namespace Lexicon

/-- No rule reads an escape at the end of a text. -/
theorem firstRule?_escape (apart : lexicon.Apart) :
    lexicon.firstRule? [lexicon.escape] = none := by
  rw [firstRule?_cons, List.find?_eq_none]
  intro rule inRules
  obtain ⟨notOpener, notCloser, notOperator, notSeparator⟩ := apart.escape
  rcases rule_cases inRules with rfl | rfl | rfl | rfl | rfl
  · simp [Rule.applies, Rule.matchLength, Pattern.length, notOpener]
  · simp [Rule.applies, Rule.matchLength, Pattern.length, notCloser]
  · simp [Rule.applies, Rule.matchLength, Pattern.length, notOperator]
  · simp [Rule.applies, Rule.matchLength, Pattern.length, notSeparator]
  · simp [Rule.applies, Rule.matchLength, Pattern.length, Pattern.wordLength]

/-- The first rule that matches is the same with whitespace behind a text. -/
theorem firstRule?_append (apart : lexicon.Apart)
    (blank : ∀ c ∈ blanks, lexicon.isWhitespace c = true) (nonempty : text ≠ [])
    (readable : text ≠ [lexicon.escape]) :
    lexicon.firstRule? (text ++ blanks) = lexicon.firstRule? text := by
  obtain ⟨c, rest, rfl⟩ := List.exists_cons_of_ne_nil nonempty
  rw [List.cons_append, firstRule?_cons, firstRule?_cons]
  apply List.find?_congr
  intro rule inRules
  rw [← List.cons_append, Rule.applies, Rule.applies, decide_eq_decide]
  rcases rule.matchLength_append apart inRules blank nonempty with same | ⟨dangling, longer⟩
  · rw [same]
  · have some : rule.matchLength (c :: rest) ≠ 0 := by
      intro none
      rw [none] at dangling
      exact readable dangling
    omega

end Lexicon

/-! ## Reading -/

/-- Two tokens of one kind, lexeme and text lie in the same place behind the same gap. -/
structure Token.Coincides (first second : Token) : Prop extends Token.Twin first second where
  span : first.span = second.span
  before : first.before = second.before

/-- A token with space around it has so with a longer gap behind it, and carriage returns
are no space. -/
theorem Token.Coincides.isSpaced_eq {first second : Token} {gap : String}
    (coincides : first.Coincides second) (after : second.after = first.after ++ gap)
    (settled : first.isSpaced = true ∨ ∀ c ∈ gap.toList, c = '\r') :
    first.isSpaced = second.isSpaced := by
  have before : first.metrics.spacedBefore = second.metrics.spacedBefore :=
    Token.spacedBefore_eq (by rw [coincides.before]; exact .refl _)
  rcases settled with spaced | returns
  · have columns := Gap.widthOnFirstLine_le_append first.after gap
    have height := Gap.height_append first.after gap
    rw [← after] at columns height
    rw [spaced, eq_comm]
    rw [Token.isSpaced, Metrics.spaced, Bool.or_eq_true] at spaced ⊢
    refine spaced.imp (fun front => before ▸ front) fun behind => ?_
    simp only [Metrics.spacedAfter, Bool.or_eq_true, decide_eq_true_eq] at behind ⊢
    simp only [Token.metrics, Metrics.measure] at behind ⊢
    omega
  · have agree := Gap.agree_append_returns False first.after returns
    rw [← after] at agree
    rw [Token.isSpaced, Token.isSpaced, Metrics.spaced, Metrics.spaced, before,
      Token.spacedAfter_eq agree.like]

/-- Tokens in the same places, the last of which has a longer gap behind it. -/
inductive ExtendedBy (gap : String) : List Token → List Token → Prop
  /-- There are none. -/
  | nil : ExtendedBy gap [] []
  /-- The last ones. -/
  | last {first second : Token} (coincides : first.Coincides second)
      (after : second.after = first.after ++ gap) : ExtendedBy gap [first] [second]
  /-- Two with the same gap behind them. -/
  | cons {first second : Token} {rest rest' : List Token} (coincides : first.Coincides second)
      (after : second.after = first.after) (behind : ExtendedBy gap rest rest') :
      ExtendedBy gap (first :: rest) (second :: rest')

namespace ExtendedBy

variable {gap : String} {tokens tokens' : List Token}

theorem before_eq (extended : ExtendedBy gap tokens tokens') :
    ∀ first ∈ tokens.head?, ∀ second ∈ tokens'.head?, first.before = second.before := by
  cases extended with
  | nil => exact nofun
  | last coincides | cons coincides =>
      intro first member second member'
      obtain rfl := Option.some.inj member
      obtain rfl := Option.some.inj member'
      exact coincides.before

theorem coincide (extended : ExtendedBy gap tokens tokens') :
    ∀ pair ∈ tokens.zip tokens', pair.1.Coincides pair.2 := by
  induction extended with
  | nil => simp
  | last coincides => exact List.forall_mem_singleton.mpr coincides
  | cons coincides _ _ ih => exact List.forall_mem_cons.mpr ⟨coincides, ih⟩

/-- A text agrees with itself in front of a gap, where the space around a separator at its
end is settled or does not matter. -/
theorem agreeing {exactly : Prop} (extended : ExtendedBy gap tokens tokens')
    (settled : exactly → ∀ last ∈ tokens.getLast?, last.lexeme = .separator →
      last.isSpaced = true ∨ ∀ c ∈ gap.toList, c = '\r') :
    Agreeing false exactly tokens tokens' := by
  induction extended with
  | nil => exact .nil
  | last coincides after =>
      exact .last coincides.toTwin rfl fun exact separator =>
        coincides.isSpaced_eq after (settled exact _ rfl separator)
  | cons coincides after _ ih =>
      exact .cons coincides.toTwin (after ▸ .refl _ _) (ih fun exact last member =>
        settled exact last (List.mem_getLast?_cons member))

end ExtendedBy

namespace Cursor

variable {cursor last : Cursor} {size : Nat} {tokens : List Token}

theorem skipGap_append_of_rest_nil (blank : ∀ c ∈ blanks, lexicon.isWhitespace c = true)
    (offset : Nat) (none : (skipGap lexicon offset text).rest = []) :
    (skipGap lexicon offset (text ++ blanks)).rest = [] ∧
      (skipGap lexicon offset (text ++ blanks)).gap =
        (skipGap lexicon offset text).gap ++ String.ofList blanks := by
  have all := List.dropWhile_eq_nil_iff.mp none
  have both : ∀ c ∈ text ++ blanks, lexicon.isWhitespace c = true := fun c member =>
    (List.mem_append.mp member).elim (all c) (blank c)
  refine ⟨List.dropWhile_eq_nil_iff.mpr both, ?_⟩
  simp only [skipGap, Lexicon.leadingGap, List.takeWhile_eq_self_iff.mpr all,
    List.takeWhile_eq_self_iff.mpr both, String.ofList_append]

/-- A rule that matches no more with whitespace behind a text reads the same token. -/
theorem take_extend (lexicon : Lexicon) (size size' : Nat)
    (same : rule.matchLength (cursor.rest ++ blanks) = rule.matchLength cursor.rest) :
    (cursor.take lexicon size rule).1.Coincides
        ((cursor.extend blanks).take lexicon size' rule).1 ∧
      ((cursor.extend blanks).take lexicon size' rule).2 =
        skipGap lexicon (cursor.stopOf rule)
          (cursor.rest.drop (rule.matchLength cursor.rest) ++ blanks) := by
  have least := rule.matchLength_le cursor.rest
  have taken : (cursor.rest ++ blanks).take (rule.matchLength cursor.rest) =
      cursor.rest.take (rule.matchLength cursor.rest) := List.take_append_of_le_length least
  have dropped : (cursor.rest ++ blanks).drop (rule.matchLength cursor.rest) =
      cursor.rest.drop (rule.matchLength cursor.rest) ++ blanks :=
    List.drop_append_of_le_length least
  refine ⟨⟨⟨rfl, rfl, ?_⟩, ?_, rfl⟩, ?_⟩
  · simp only [take, extend, Token.read, same, taken]
  · simp only [take, extend, Token.read, same, taken]
  · simp only [take, extend, same, taken, dropped, stopOf]

/-- Where what follows can be read, a rule does not match up to an escape at the end. -/
theorem matchLength_of_reads (apart : lexicon.Apart)
    (blank : ∀ c ∈ blanks, lexicon.isWhitespace c = true)
    (found : lexicon.firstRule? cursor.rest = some rule)
    (reads : Reads lexicon size (cursor.take lexicon size rule).2 tokens last)
    (ended : last.rest = []) :
    rule.matchLength (cursor.rest ++ blanks) = rule.matchLength cursor.rest := by
  have nonempty := Lexicon.ne_nil_of_firstRule? found
  have member := Lexicon.mem_rules_of_firstRule? found
  rcases rule.matchLength_append apart member blank nonempty with same | ⟨dangling, _⟩
  · exact same
  · have next_rest : (cursor.take lexicon size rule).2.rest = [lexicon.escape] := by
      rw [take_next, dangling]
      simp [skipGap, apart.isWhitespace_escape]
    cases reads with
    | stop =>
        rw [next_rest] at ended
        contradiction
    | token found =>
        rw [next_rest, Lexicon.firstRule?_escape apart] at found
        contradiction

/-- A run that leaves nothing reads the same tokens with whitespace behind the text. -/
theorem Reads.extend (apart : lexicon.Apart)
    (blank : ∀ c ∈ blanks, lexicon.isWhitespace c = true) (size' : Nat)
    (reads : Reads lexicon size cursor tokens last) (ended : last.rest = [])
    (nonempty : cursor.rest ≠ []) :
    ∃ tokens' last', Reads lexicon size' (cursor.extend blanks) tokens' last' ∧
      last'.rest = [] ∧ ExtendedBy (String.ofList blanks) tokens tokens' := by
  induction reads with
  | stop => contradiction
  | @token cursor last rule tokens found behind ih =>
      have same := matchLength_of_reads apart blank found behind ended
      have readable : cursor.rest ≠ [lexicon.escape] := by
        intro dangling
        rw [dangling, Lexicon.firstRule?_escape apart] at found
        contradiction
      have found' : lexicon.firstRule? (cursor.extend blanks).rest = some rule := by
        rw [Cursor.extend, Lexicon.firstRule?_append apart blank nonempty readable, found]
      obtain ⟨coincides, next_eq⟩ := take_extend lexicon size size' same
      by_cases more : (cursor.take lexicon size rule).2.rest = []
      · -- The first run ends here, so the gap behind the token takes all that was added.
        obtain ⟨ended', gap_eq⟩ := skipGap_append_of_rest_nil blank (cursor.stopOf rule) more
        obtain rfl := behind.eq_nil more
        rw [← next_eq] at ended' gap_eq
        exact ⟨_, _, .token found' (.of_rest_nil size' ended'), ended', .last coincides gap_eq⟩
      · have next_eq' : ((cursor.extend blanks).take lexicon size' rule).2 =
            (cursor.take lexicon size rule).2.extend blanks :=
          next_eq.trans (skipGap_append _ more)
        obtain ⟨tokens', last', reads', ended', extended⟩ := ih ended more
        rw [← next_eq'] at reads'
        refine ⟨_, last', .token found' reads', ended', .cons coincides ?_ extended⟩
        rw [take_after, take_after, next_eq']
        rfl

end Cursor

/-- A source with a gap behind it. -/
def Source.extend (source : Source) (gap : String) : Source :=
  { source with text := source.text ++ gap }

/-- A source that can be read is read into the same tokens with whitespace behind it. -/
theorem tokenize_extend {source : Source} {gap : String} {tokens : List Token}
    (apart : lexicon.Apart) (blank : lexicon.Blank gap)
    (read_eq : tokenize lexicon source = tokens.map .ok) :
    ∃ tokens', tokenize lexicon (source.extend gap) = tokens'.map .ok ∧
      ExtendedBy gap tokens tokens' := by
  have text_eq : (source.extend gap).text.toList = source.text.toList ++ gap.toList :=
    String.toList_append
  obtain ⟨last, reads, ended⟩ := Cursor.readAll_eq_map_ok_iff.mp read_eq
  simp only [tokenize, text_eq, Cursor.readAll_eq_map_ok_iff]
  by_cases more : (Cursor.skipGap lexicon 0 source.text.toList).rest = []
  · have ended' := (Cursor.skipGap_append_of_rest_nil blank 0 more).1
    obtain rfl := reads.eq_nil more
    exact ⟨[], ⟨_, .of_rest_nil _ ended', ended'⟩, .nil⟩
  · obtain ⟨tokens', last', reads', ended', extended⟩ :=
      reads.extend apart blank (source.extend gap).size ended more
    rw [← Cursor.skipGap_append 0 more] at reads'
    rw [String.ofList_toList] at extended
    exact ⟨tokens', ⟨last', reads', ended'⟩, extended⟩

end OperatorMarkup
