import Mathlib
import OperatorMarkup.Proofs.Operator.Likeness
import OperatorMarkup.Proofs.Parse.Outcome
import OperatorMarkup.Proofs.Token.Agreement

/-!
# What layout decides

Two texts of the same tokens, with gaps between them that agree, are parsed into trees
with the same outline, or are refused for the same tokens.  Whether they are refused
depends on the tokens alone.
-/

namespace OperatorMarkup

open Grouping Operator

variable {lexicon : Lexicon} {source other : Source} {tokens tokens' : List Token}
  {named : Token → Token → Prop} {wide : Bool} {exactly : Prop} {comparison : Comparison}

/-! ## Two streams -/

theorem elements_related (exact : comparison.exactly)
    (fits : ∀ token ∈ tokens, token.Fits lexicon)
    (related : List.Forall₂ (Token.Interchangeable comparison lexicon) tokens tokens') :
    List.Forall₂ (ElementRelated (Token.Interchangeable comparison lexicon)
        (Counterpart comparison lexicon))
      (tokens.map (Token.element lexicon)) (tokens'.map (Token.element lexicon)) := by
  induction related with
  | nil => exact .nil
  | @cons first second tokens tokens' head _ ih =>
      rw [List.forall_mem_cons] at fits
      refine .cons ?_ (ih fits.2)
      rw [Token.element, Token.element, ← head.isOperand]
      cases operand : first.isOperand with
      | true => exact .operand head
      | false =>
          have faces_eq := head.faces exact operand
          exact .operator ⟨⟨congrArg Prod.fst faces_eq, congrArg Prod.snd faces_eq⟩, head, fits.1⟩

/-- Streams whose tokens can stand for each other are grouped into trees with the same
outline. -/
theorem outline_eq_of_groupedTree {root root' : Node} (exact : comparison.exactly)
    (stream_eq : tokenStream lexicon source = stream tokens none)
    (stream_eq' : tokenStream lexicon other = stream tokens' none)
    (fits : ∀ token ∈ tokens, token.Fits lexicon)
    (related : List.Forall₂ (Token.Interchangeable comparison lexicon) tokens tokens')
    (root_eq : groupedTree lexicon source = .ok root)
    (root_eq' : groupedTree lexicon other = .ok root') : Node.OutlineEq comparison root root' := by
  have grouped := (nodeGrammar_related source other).group
    (elements_related exact fits related)
  rw [← groupedTree_eq stream_eq, ← groupedTree_eq stream_eq', root_eq, root_eq'] at grouped
  cases grouped with
  | ok same => exact same

/-- Delimiters nest alike in two streams of the same tokens. -/
theorem nest_isOk_iff (lexicon : Lexicon) (twins : List.Forall₂ Token.Twin tokens tokens') :
    (∃ pending, nest [] (delimiterOperators lexicon tokens) = .ok pending) ↔
      ∃ pending, nest [] (delimiterOperators lexicon tokens') = .ok pending := by
  have nests := nest_related .nil (delimiterOperators_facesEq lexicon twins)
  generalize nest [] (delimiterOperators lexicon tokens) = answer at nests
  generalize nest [] (delimiterOperators lexicon tokens') = answer' at nests
  cases nests with
  | ok _ => exact iff_of_true ⟨_, rfl⟩ ⟨_, rfl⟩
  | error _ => exact iff_of_false nofun nofun

/-- Streams whose tokens can stand for each other, and which fail alike, come to trees
with the same outline, or are refused for tokens that stand for each other. -/
theorem groupedTree_related {failure failure' : Option Error}
    (stream_eq : tokenStream lexicon source = stream tokens failure)
    (stream_eq' : tokenStream lexicon other = stream tokens' failure')
    (related : List.Forall₂ (Token.Interchangeable comparison lexicon) tokens tokens')
    (failures : Option.Rel (Error.Names named) failure failure')
    (blames : Option.Rel (NamedTwins named) (blame lexicon (brackets lexicon source))
      (blame lexicon (brackets lexicon other))) :
    Except.Related (Error.Names named)
      (fun root root' => comparison.exactly → Node.OutlineEq comparison root root')
      (groupedTree lexicon source) (groupedTree lexicon other) := by
  have streams := streams_of_eq stream_eq
  have streams' := streams_of_eq stream_eq'
  have unmatched : ∀ {culprit culprit' : Token},
      blame lexicon (brackets lexicon source) = some culprit →
      blame lexicon (brackets lexicon other) = some culprit' →
      Error.Names named culprit.unmatched culprit'.unmatched := by
    intro culprit culprit' blame_eq blame_eq'
    rw [blame_eq, blame_eq'] at blames
    cases blames with
    | some pair => exact .unmatched pair.2
  cases failures with
  | none =>
      rcases groupedTree_cases stream_eq streams with
        ⟨blame_eq, _, root, _, root_eq⟩ | ⟨culprit, blame_eq, root_eq⟩ <;>
      rcases groupedTree_cases stream_eq' streams' with
        ⟨blame_eq', _, root', _, root_eq'⟩ | ⟨culprit', blame_eq', root_eq'⟩
      · rw [root_eq, root_eq']
        exact .ok fun exact =>
          outline_eq_of_groupedTree exact stream_eq stream_eq' streams.fits related root_eq root_eq'
      · rw [blame_eq, blame_eq'] at blames
        contradiction
      · rw [blame_eq, blame_eq'] at blames
        contradiction
      · rw [root_eq, root_eq']
        exact .error (unmatched blame_eq blame_eq')
  | some names =>
      -- A failure of the stream is reported unless a delimiter before it is at fault.
      have nests := nest_isOk_iff lexicon (related.imp fun _ _ => (·.toTwin))
      rcases groupedTree_of_failure_cases stream_eq streams with
        ⟨nested, root_eq⟩ | ⟨broken, culprit, blame_eq, root_eq⟩ <;>
      rcases groupedTree_of_failure_cases stream_eq' streams' with
        ⟨nested', root_eq'⟩ | ⟨broken', culprit', blame_eq', root_eq'⟩
      · rw [root_eq, root_eq']
        exact .error names
      · exact absurd (nests.mp nested) broken'
      · exact absurd (nests.mpr nested') broken
      · rw [root_eq, root_eq']
        exact .error (unmatched blame_eq blame_eq')

/-! ## Two texts -/

/-- Two texts that agree are parsed into trees with the same outline where every gap
matters to neither or to both, and else are refused or accepted alike. -/
theorem parse_related (read_eq : tokenize lexicon source = tokens.map .ok)
    (read_eq' : tokenize lexicon other = tokens'.map .ok)
    (agreeing : Agreeing wide exactly tokens tokens')
    (starts : ∀ first ∈ tokens.head?, ∀ second ∈ tokens'.head?,
      Gap.Agree True first.before second.before)
    (allNamed : ∀ pair ∈ tokens.zip tokens', named pair.1 pair.2) :
    Except.Related (Error.Names named)
      (fun root root' => exactly → root.outline wide = root'.outline wide)
      (parse lexicon source) (parse lexicon other) := by
  obtain ⟨steps, steps_eq⟩ := exists_steps lexicon source
  obtain ⟨steps', steps_eq'⟩ := exists_steps lexicon other
  rw [← stream_none] at read_eq read_eq'
  obtain ⟨rfl, none_eq⟩ := stream_inj (steps.read_eq.symm.trans read_eq)
  obtain ⟨rfl, none_eq'⟩ := stream_inj (steps'.read_eq.symm.trans read_eq')
  obtain ⟨related, failures⟩ :=
    steps.written_related steps' none_eq none_eq' agreeing starts allNamed
  have blames := blame_related lexicon (agreeing.namedTwins allNamed)
  rw [← blame_filter, ← brackets_eq_filter steps.read_eq, ← blame_filter steps'.read,
    ← brackets_eq_filter steps'.read_eq] at blames
  apply (groupedTree_related steps_eq steps_eq' related failures blames).map
  intro root root' same exact
  rw [Node.outline_settle, Node.outline_settle]
  exact same exact

/-- The tree that a text is parsed into follows from its tokens and from what agrees in
the gaps between them, up to the places of its nodes, and so does the error that it is
refused with, up to the places of the tokens that it names. -/
theorem parse_layout_invariant (read_eq : tokenize lexicon source = tokens.map .ok)
    (read_eq' : tokenize lexicon other = tokens'.map .ok)
    (twins : List.Forall₂ Token.Twin tokens tokens')
    (starts : ∀ first ∈ tokens.head?, ∀ second ∈ tokens'.head?,
      Gap.Agree True first.before second.before)
    (gaps : List.Forall₂ (fun first second => Gap.Agree False first.after second.after) tokens
      tokens') :
    Except.Related (Error.Names fun first second => (first, second) ∈ tokens.zip tokens')
      (fun root root' => root.outline true = root'.outline true)
      (parse lexicon source) (parse lexicon other) := by
  have agreeing : Agreeing true True tokens tokens' := .of_twins twins gaps
  exact (parse_related read_eq read_eq' agreeing starts fun _ member => member).imp
    (fun _ _ names => names) fun _ _ same => same trivial

/-- The tokens that are read from a source. -/
def readTokens (lexicon : Lexicon) (source : Source) : List Token :=
  (tokenize lexicon source).filterMap Except.toOption

/-- A text with carriage returns and a tab. -/
def returnedText : Source :=
  ⟨"a +  b,\r\n\r\n\t c", none, 0⟩

/-- The same without them, with other spaces and one more blank line. -/
def respacedText : Source :=
  ⟨"a~ + b,\n\n\n ~c", none, 0⟩

theorem parse_layout_invariant_respaced :
    ∃ root root', parse .standard returnedText = .ok root ∧
      parse .standard respacedText = .ok root' ∧ root.outline true = root'.outline true := by
  have read_eq : tokenize .standard returnedText =
      (readTokens .standard returnedText).map .ok := by cbv
  have read_eq' : tokenize .standard respacedText =
      (readTokens .standard respacedText).map .ok := by cbv
  have related := parse_layout_invariant read_eq read_eq' (by decide +kernel) (by decide +kernel)
    (by decide +kernel)
  have accepted : (parse .standard returnedText).isOk = true := by cbv
  cases root_eq : parse .standard returnedText with
  | error _ =>
      rw [root_eq] at accepted
      contradiction
  | ok root =>
      rw [root_eq] at related
      obtain ⟨root', root_eq', same⟩ := related.exists_of_ok
      exact ⟨root, root', rfl, root_eq', same⟩

/-- In particular neither carriage returns matter to the tree or to the tokens that are blamed,
nor which whitespace takes a column, how many spaces lie between two words of a line, or how
many blank lines between two lines. -/
theorem parse_respaced (read_eq : tokenize lexicon source = tokens.map .ok)
    (read_eq' : tokenize lexicon other = tokens'.map .ok)
    (twins : List.Forall₂ Token.Twin tokens tokens')
    (starts : ∀ first ∈ tokens.head?, ∀ second ∈ tokens'.head?,
      Gap.Respaced True first.before second.before)
    (gaps : List.Forall₂ (fun first second => Gap.Respaced False first.after second.after) tokens
      tokens') :
    Except.Related (Error.Names fun first second => (first, second) ∈ tokens.zip tokens')
      (fun root root' => root.outline true = root'.outline true)
      (parse lexicon source) (parse lexicon other) := by
  have agreeing : Agreeing true True tokens tokens' :=
    .of_twins twins (gaps.imp fun _ _ respaced => respaced.agree)
  have startsAgree : ∀ first ∈ tokens.head?, ∀ second ∈ tokens'.head?,
      Gap.Agree True first.before second.before :=
    fun first atFirst second atSecond => (starts first atFirst second atSecond).agree
  exact (parse_related read_eq read_eq' agreeing startsAgree fun _ member => member).imp
    (fun _ _ names => names) fun _ _ same => same trivial

end OperatorMarkup
