import OperatorMarkup.Proofs.Token.Lockstep

/-!
# Texts that agree

Two texts are read into the same tokens, with gaps between them that agree.  Where a
token has its line to itself in one of them it has so in the other, since the first and
the last tokens of the two are in the same places.  So their tokens look alike, and
their streams come to tokens that can stand for each other, or fail at the same
operators.
-/

namespace OperatorMarkup

variable {lexicon : Lexicon} {source other : Source} {first second : Token}
  {tokens tokens' : List Token} {offset offset' : Nat} {gap gap' : String}
  {named : Token → Token → Prop} {wide : Bool} {exactly : Prop}

/-- Tokens of two texts in pairs, with gaps between them that agree.  The gaps behind the
last two may differ unless widths matter. -/
inductive Agreeing (wide : Bool) (exactly : Prop) : List Token → List Token → Prop
  /-- There are none. -/
  | nil : Agreeing wide exactly [] []
  /-- The last two. -/
  | last {first second : Token} (twin : first.Twin second) (narrow : wide = false)
      (spaced : exactly → first.lexeme = .separator → first.isSpaced = second.isSpaced) :
      Agreeing wide exactly [first] [second]
  /-- Two tokens with gaps behind them that agree. -/
  | cons {first second : Token} {rest rest' : List Token} (twin : first.Twin second)
      (after : Gap.Agree False first.after second.after)
      (behind : Agreeing wide exactly rest rest') :
      Agreeing wide exactly (first :: rest) (second :: rest')

/-- What is known of a token that was read. -/
structure Token.Original (lexicon : Lexicon) (source : Source) (token : Token) : Prop where
  sound : token.Sound lexicon source
  read : token.IsRead source

namespace Placed

theorem uncons (placed : Placed lexicon source offset gap (first :: tokens))
    (written : first.lexeme.isSynthetic = false) :
    first.before = gap ∧ first.span.start = offset + gap.utf8ByteSize ∧
      Placed lexicon source first.span.stop first.after tokens := by
  cases placed with
  | inserted synthetic _ _ =>
      rw [written] at synthetic
      contradiction
  | written _ _ _ before_eq start_eq _ rest => exact ⟨before_eq, start_eq, rest⟩

/-- A gap reaches to the end of a text where no token is behind it. -/
theorem reaches_end_iff (placed : Placed lexicon source offset gap tokens)
    (original : ∀ token ∈ tokens, token.Original lexicon source) :
    offset + gap.utf8ByteSize = source.size ↔ tokens = [] := by
  cases tokens with
  | nil =>
      cases placed with
      | nil _ _ size_eq => simp [size_eq]
  | cons first tokens =>
      have head := original first List.mem_cons_self
      obtain ⟨_, start_eq, _⟩ := placed.uncons head.read.written
      have seated := head.sound.seated head.read.written
      simp only [reduceCtorEq, iff_false]
      omega

end Placed

/-- Tokens agree whatever matters where every gap behind them does, that behind the last two
too. -/
theorem Agreeing.of_twins (twins : List.Forall₂ Token.Twin tokens tokens')
    (gaps : List.Forall₂ (fun first second => Gap.Agree False first.after second.after) tokens
      tokens') :
    Agreeing wide exactly tokens tokens' := by
  induction twins with
  | nil => exact .nil
  | cons twin _ ih =>
      cases gaps with
      | cons after gaps => exact .cons twin after (ih gaps)

theorem Agreeing.nil_iff
    (agreeing : Agreeing wide exactly tokens tokens') : tokens = [] ↔ tokens' = [] := by
  cases agreeing <;> simp

/-- Two tokens in one place, at the start or the end of their texts together. -/
structure Paired (source other : Source) (first second : Token) : Prop extends
    Token.Twin first second where
  read : first.IsRead source
  read' : second.IsRead other
  before : Gap.Like first.before second.before
  starts : (first.span.start == first.before.utf8ByteSize) =
    (second.span.start == second.before.utf8ByteSize)
  ends : (first.span.stop + first.after.utf8ByteSize == source.size) =
    (second.span.stop + second.after.utf8ByteSize == other.size)

namespace Paired

theorem lineOperator_eq (paired : Paired source other first second)
    (heights : (decide (Gap.height first.after > 0) ||
        first.span.stop + first.after.utf8ByteSize == source.size) =
      (decide (Gap.height second.after > 0) ||
        second.span.stop + second.after.utf8ByteSize == other.size)) :
    first.lineOperator = second.lineOperator := by
  have front : decide (Gap.height first.before > 0) = decide (Gap.height second.before > 0) :=
    decide_eq_decide.mpr paired.before.height_pos_iff
  rw [paired.read.lineOperator_eq, paired.read'.lineOperator_eq, Token.standsAlone,
    Token.standsAlone, front, paired.starts, heights, paired.lexeme, paired.text]

theorem alike (paired : Paired source other first second)
    (after : Gap.Like first.after second.after) (isNamed : named first second) :
    first.Alike ⟨source.size, other.size, named, wide, exactly⟩ second := by
  have heights : decide (Gap.height first.after > 0) = decide (Gap.height second.after > 0) :=
    decide_eq_decide.mpr after.height_pos_iff
  have lineOperator := paired.lineOperator_eq (by rw [heights, paired.ends])
  refine ⟨paired.toTwin, lineOperator, paired.before, after, fun _ => ⟨?_, isNamed⟩⟩
  have blankBefore : first.blankBefore = second.blankBefore := by
    rw [Token.blankBefore, Token.blankBefore, paired.starts]
    exact congrArg (· || _) (decide_eq_decide.mpr paired.before.two_le_height_iff)
  have blankAfter : first.blankAfter source.size = second.blankAfter other.size := by
    rw [Token.blankAfter, Token.blankAfter, paired.ends]
    exact congrArg (· || _) (decide_eq_decide.mpr after.two_le_height_iff)
  have spaceBefore : decide (first.spaceBefore > 0) = decide (second.spaceBefore > 0) :=
    decide_eq_decide.mpr paired.before.widthOnLastLine_pos_iff
  have spaceAfter : decide (first.spaceAfter > 0) = decide (second.spaceAfter > 0) :=
    decide_eq_decide.mpr after.widthOnFirstLine_pos_iff
  rw [FixityChoice.sides, FixityChoice.sides, lineOperator, blankBefore, blankAfter, spaceBefore,
    spaceAfter]

theorem trailing (paired : Paired source other first second) (fits : first.Fits lexicon)
    (ending : first.span.stop + first.after.utf8ByteSize = source.size)
    (narrow : wide = false)
    (spaced : exactly → first.lexeme = .separator → first.isSpaced = second.isSpaced)
    (isNamed : named first second) :
    first.Trailing ⟨source.size, other.size, named, wide, exactly⟩ second := by
  have reaches : (first.span.stop + first.after.utf8ByteSize == source.size) = true :=
    beq_iff_eq.mpr ending
  refine ⟨paired.toTwin, narrow, paired.lineOperator_eq ?_, fun _ => paired.before, spaced, ?_, ?_,
    ⟨FixityChoice.Decides.lexeme_eq_of_undecided fits, paired.read.undecided⟩, fun _ => isNamed⟩
  · rw [← paired.ends, reaches, Bool.or_true, Bool.or_true]
  · intro synthetic
    rw [paired.read.written] at synthetic
    contradiction
  · intro word
    rw [Token.isOperand, show first.kind = .identifier from fits.allows word]
    rfl

end Paired

theorem paired_of_placed {rest rest' : List Token} (twin : first.Twin second)
    (placed : Placed lexicon source offset gap (first :: rest))
    (placed' : Placed lexicon other offset' gap' (second :: rest')) (gaps : Gap.Like gap gap')
    (starts : offset = 0 ↔ offset' = 0)
    (original : ∀ token ∈ first :: rest, token.Original lexicon source)
    (original' : ∀ token ∈ second :: rest', token.Original lexicon other)
    (together : rest = [] ↔ rest' = []) : Paired source other first second := by
  rw [List.forall_mem_cons] at original original'
  obtain ⟨before_eq, start_eq, next⟩ := placed.uncons original.1.read.written
  obtain ⟨before_eq', start_eq', next'⟩ := placed'.uncons original'.1.read.written
  refine ⟨twin, original.1.read, original'.1.read, by rwa [before_eq, before_eq'], ?_, ?_⟩
  · rw [Bool.eq_iff_iff, beq_iff_eq, beq_iff_eq, start_eq, start_eq', before_eq, before_eq']
    omega
  · rw [Bool.eq_iff_iff, beq_iff_eq, beq_iff_eq, next.reaches_end_iff original.2,
      next'.reaches_end_iff original'.2, together]

theorem Token.Original.stop_ne_zero (original : first.Original lexicon source) :
    first.span.stop ≠ 0 := by
  have seated := original.sound.seated original.read.written
  omega

/-- Where two texts agree, their tokens look alike. -/
theorem aligned_of_agreeing
    (agreeing : Agreeing wide exactly tokens tokens')
    (placed : Placed lexicon source offset gap tokens)
    (placed' : Placed lexicon other offset' gap' tokens') (gaps : Gap.Like gap gap')
    (starts : offset = 0 ↔ offset' = 0)
    (original : ∀ token ∈ tokens, token.Original lexicon source)
    (original' : ∀ token ∈ tokens', token.Original lexicon other)
    (allNamed : ∀ pair ∈ tokens.zip tokens', named pair.1 pair.2) :
    Aligned ⟨source.size, other.size, named, wide, exactly⟩ gap gap' tokens tokens' := by
  induction agreeing generalizing offset offset' gap gap' with
  | nil => exact .nil
  | @last first second twin narrow spaced =>
      have paired := paired_of_placed twin placed placed' gaps starts original original' Iff.rfl
      rw [List.forall_mem_singleton] at original original'
      obtain ⟨before_eq, _, next⟩ := placed.uncons original.read.written
      obtain ⟨before_eq', _, _⟩ := placed'.uncons original'.read.written
      -- Both gaps reach the ends of their texts, which count as line ends.
      have ending := (next.reaches_end_iff (by simp)).mpr rfl
      exact .last before_eq before_eq' (paired.trailing original.sound.fits ending narrow spaced
        (allNamed (first, second) (by simp)))
  | @cons first second rest rest' twin after behind ih =>
      have paired := paired_of_placed twin placed placed' gaps starts original original'
        behind.nil_iff
      rw [List.forall_mem_cons] at original original'
      obtain ⟨before_eq, _, next⟩ := placed.uncons original.1.read.written
      obtain ⟨before_eq', _, next'⟩ := placed'.uncons original'.1.read.written
      rw [List.zip_cons_cons, List.forall_mem_cons] at allNamed
      refine .cons before_eq before_eq' (paired.alike after.like allNamed.1) after ?_
      exact ih next next' after.like
        (iff_of_false original.1.stop_ne_zero original'.1.stop_ne_zero) original.2 original'.2
        allNamed.2

/-! ## Streams of texts that agree -/

namespace Steps

variable (steps : Steps lexicon source) (steps' : Steps lexicon other)

theorem read_placed (complete : steps.readFailure = none) :
    ∃ gap, Placed lexicon source 0 gap steps.read := by
  obtain ⟨read, failure, gap, read_eq, _, placed, _⟩ := tokenize_placed lexicon source
  obtain ⟨rfl, rfl⟩ := stream_inj (read_eq.symm.trans steps.read_eq)
  exact ⟨gap, placed complete⟩

theorem read_original : ∀ token ∈ steps.read, token.Original lexicon source := by
  intro token member
  have item : .ok token ∈ tokenize lexicon source := by
    rw [steps.read_eq]
    exact List.mem_append_left _ (List.mem_map_of_mem member)
  exact ⟨(steps.read_sound token member).1, tokenize_isRead item⟩

theorem exists_aligned (complete : steps.readFailure = none) (complete' : steps'.readFailure = none)
    (agreeing : Agreeing wide exactly steps.read steps'.read)
    (starts : ∀ first ∈ steps.read.head?, ∀ second ∈ steps'.read.head?,
      Gap.Agree True first.before second.before)
    (allNamed : ∀ pair ∈ steps.read.zip steps'.read, named pair.1 pair.2) :
    ∃ gap gap', Aligned ⟨source.size, other.size, named, wide, exactly⟩ gap gap' steps.read
      steps'.read := by
  obtain ⟨gap, placed⟩ := steps.read_placed complete
  obtain ⟨gap', placed'⟩ := steps'.read_placed complete'
  have original := steps.read_original
  have original' := steps'.read_original
  refine ⟨gap, gap', ?_⟩
  generalize steps.read = read at *
  generalize steps'.read = read' at *
  cases read with
  | nil =>
      obtain rfl := agreeing.nil_iff.mp rfl
      exact .nil
  | cons first rest =>
      cases read' with
      | nil => exact nomatch agreeing.nil_iff.mpr rfl
      | cons second rest' =>
          have gaps := (starts first rfl second rfl).like
          rw [(placed.uncons (original first List.mem_cons_self).read.written).1,
            (placed'.uncons (original' second List.mem_cons_self).read.written).1] at gaps
          exact aligned_of_agreeing agreeing placed placed' gaps Iff.rfl original original' allNamed

/-- The streams of two texts that agree are of tokens that can stand for each other, and
fail at the same operators. -/
theorem written_related (complete : steps.readFailure = none)
    (complete' : steps'.readFailure = none)
    (agreeing : Agreeing wide exactly steps.read steps'.read)
    (starts : ∀ first ∈ steps.read.head?, ∀ second ∈ steps'.read.head?,
      Gap.Agree True first.before second.before)
    (allNamed : ∀ pair ∈ steps.read.zip steps'.read, named pair.1 pair.2) :
    List.Forall₂
        (Token.Interchangeable ⟨source.size, other.size, named, wide, exactly⟩ lexicon)
        steps.written steps'.written ∧
      Option.Rel (Error.Names named) steps.failure steps'.failure := by
  obtain ⟨gap, gap', aligned⟩ := steps.exists_aligned steps' complete complete' agreeing starts
    allNamed
  have lowers := steps.lowers
  have lowers' := steps'.lowers
  have decides := steps.decides
  have decides' := steps'.decides
  rw [complete] at lowers decides
  rw [complete'] at lowers' decides'
  have lowered := Indentation.lowered_likeness aligned
    (fun first member second member' =>
      (starts first member second member').lastLine (.inr trivial)) lowers lowers'
  obtain ⟨decided, failures⟩ := FixityChoice.decides_likeness lexicon
    (.decided rfl) lowered decides decides'
  have alternating := Alternation.alternates_likeness (.refl "") rfl decided failures
    steps.alternates steps'.alternates
  exact ⟨Extent.adjustTokens_related alternating _ _ _ _, failures⟩

end Steps

/-! ## Brackets of texts that agree -/

/-- Two tokens of one kind, lexeme and text stand for each other in errors. -/
def NamedTwins (named : Token → Token → Prop) (first second : Token) : Prop :=
  first.Twin second ∧ named first second

theorem Agreeing.namedTwins (agreeing : Agreeing wide exactly tokens tokens')
    (allNamed : ∀ pair ∈ tokens.zip tokens', named pair.1 pair.2) :
    List.Forall₂ (NamedTwins named) tokens tokens' := by
  induction agreeing with
  | nil => exact .nil
  | @last first second twin => exact .cons ⟨twin, allNamed (first, second) (by simp)⟩ .nil
  | cons twin _ _ ih =>
      rw [List.zip_cons_cons, List.forall_mem_cons] at allNamed
      exact .cons ⟨twin, allNamed.1⟩ (ih allNamed.2)

theorem bracketStep_related {opened opened' : List Token}
    (stacksRelated : List.Forall₂ (NamedTwins named) opened opened')
    (pair : NamedTwins named first second) :
    Except.Related (NamedTwins named) (List.Forall₂ (NamedTwins named))
      (bracketStep lexicon opened first) (bracketStep lexicon opened' second) := by
  unfold bracketStep
  rw [← pair.1.lexeme]
  split
  · exact .ok (.cons pair stacksRelated)
  · cases stacksRelated with
    | nil => exact .error pair
    | cons opener outer =>
        simp only [← opener.1.text, ← pair.1.text]
        split
        · exact .ok outer
        · exact .error opener
  · exact .ok stacksRelated

theorem scanBrackets_related {opened opened' : List Token}
    (stacksRelated : List.Forall₂ (NamedTwins named) opened opened')
    (pairs : List.Forall₂ (NamedTwins named) tokens tokens') :
    Except.Related (NamedTwins named) (List.Forall₂ (NamedTwins named))
      (scanBrackets lexicon opened tokens) (scanBrackets lexicon opened' tokens') := by
  induction pairs generalizing opened opened' with
  | nil => exact .ok stacksRelated
  | cons pair _ ih =>
      rw [scanBrackets_cons, scanBrackets_cons]
      exact (bracketStep_related stacksRelated pair).bind fun _ _ next => ih next

/-- The brackets at fault in two texts that agree stand for each other. -/
theorem blame_related (lexicon : Lexicon) (pairs : List.Forall₂ (NamedTwins named) tokens tokens') :
    Option.Rel (NamedTwins named) (blame lexicon tokens) (blame lexicon tokens') := by
  have scans := @scanBrackets_related lexicon _ _ _ _ _ .nil pairs
  rw [blame, blame]
  generalize scanBrackets lexicon [] tokens = answer at scans
  generalize scanBrackets lexicon [] tokens' = answer' at scans
  cases scans with
  | error culprit => exact .some culprit
  | ok stacksRelated =>
      cases stacksRelated with
      | nil => exact .none
      | cons opener _ => exact .some opener

end OperatorMarkup
