import Mathlib.Tactic.Tauto
import OperatorMarkup.Proofs.Token.Extent
import OperatorMarkup.Proofs.Tree.Build
import OperatorMarkup.Proofs.Tree.Layout

/-!
# Built trees cover the text

Operands and operators that tile a part of the text are built into a tree that is
laid out over that part.  The one case that rearranges operands is the group of an
indent and its dedent, whose head may take the indented lines into its last
operand.
-/

namespace OperatorMarkup

open Grouping

/-- The part of a source that an element covers. -/
def Element.span : Element Token Operator → Span
  | .operand token => token.span
  | .operator op => op.token.span

/-- What an element covers. -/
def Element.Filled (lexicon : Lexicon) (source : Source) : Element Token Operator → Prop
  | .operand token => token.isOperand = true ∧ token.Filled lexicon source
  | .operator op => source.Covers op.token.span op.token.text

/-- Elements tile a part of a source, each with what it covers. -/
structure Spread (lexicon : Lexicon) (source : Source) (start : Nat)
    (elements : List (Element Token Operator)) (stop : Nat) : Prop where
  tile : Span.Tile start (elements.map Element.span) stop
  filled : ∀ element ∈ elements, element.Filled lexicon source

variable {lexicon : Lexicon} {source : Source} {start stop : Nat}

namespace Spread

theorem exists_middle {first second : List (Element Token Operator)}
    (spread : Spread lexicon source start (first ++ second) stop) :
    ∃ middle, Spread lexicon source start first middle ∧
      Spread lexicon source middle second stop := by
  obtain ⟨tile, filled⟩ := spread
  rw [List.map_append] at tile
  obtain ⟨middle, left, right⟩ := tile.exists_middle
  exact ⟨middle, ⟨left, fun element member => filled element (List.mem_append_left _ member)⟩,
    right, fun element member => filled element (List.mem_append_right _ member)⟩

theorem operator {op : Operator} {elements : List (Element Token Operator)}
    (spread : Spread lexicon source start (.operator op :: elements) stop) :
    op.span.start = start ∧ source.Covers op.span op.token.text ∧
      Spread lexicon source op.span.stop elements stop := by
  obtain ⟨tile, filled⟩ := spread
  rw [List.forall_mem_cons] at filled
  cases tile with
  | cons rest => exact ⟨rfl, filled.1, rest, filled.2⟩

theorem operand {token : Token} (spread : Spread lexicon source start [.operand token] stop) :
    token.isOperand = true ∧ token.Filled lexicon source ∧ token.span.start = start ∧
      token.span.stop = stop := by
  obtain ⟨tile, filled⟩ := spread
  obtain ⟨isOperand, tokenFilled⟩ := filled _ List.mem_cons_self
  obtain ⟨start_eq, rest⟩ := tile.uncons
  exact ⟨isOperand, tokenFilled, start_eq, rest.eq_of_nil⟩

end Spread

namespace Node

/-! ## Leaves -/

/-- The place of an operand has as whitespace what is cut from both ends of its part. -/
theorem tokenPlace_eq_of_cut {token : Token} {front middle behind : String}
    (covers : source.Covers token.span (front ++ middle ++ behind))
    (front_eq : front.utf8ByteSize = min token.before.utf8ByteSize token.span.length)
    (middle_eq : (front ++ middle).utf8ByteSize =
      min (front.utf8ByteSize + token.text.utf8ByteSize) token.span.length) :
    tokenPlace source token = ⟨token.span, front, behind⟩ := by
  have holds := covers.holds
  have stop_eq := covers.stop_eq
  rw [String.utf8ByteSize_append, ← Nat.add_assoc] at stop_eq
  have frontSlice := holds.left.left.sliceBytes_eq
  have behindSlice := holds.right.sliceBytes_eq
  rw [← stop_eq] at behindSlice
  simp only [tokenPlace, ← front_eq, ← middle_eq, frontSlice, behindSlice]

/-- The place of an operand has what surrounds its text as whitespace. -/
theorem tokenPlace_eq {token : Token} {after : String}
    (covers : source.Covers token.span (token.before ++ token.text ++ after)) :
    tokenPlace source token = ⟨token.span, token.before, after⟩ := by
  have length_eq : token.span.length =
      token.before.utf8ByteSize + token.text.utf8ByteSize + after.utf8ByteSize := by
    rw [Span.length, covers.stop_eq, Nat.add_sub_cancel_left, String.utf8ByteSize_append,
      String.utf8ByteSize_append]
  apply tokenPlace_eq_of_cut covers
  · rw [length_eq, Nat.add_assoc]
    exact (Nat.min_eq_left (Nat.le_add_right _ _)).symm
  · rw [length_eq, String.utf8ByteSize_append]
    exact (Nat.min_eq_left (Nat.le_add_right _ _)).symm

theorem tokenPlace_fills {token : Token} {after : String} (before : lexicon.Blank token.before)
    (behind : lexicon.Blank after)
    (covers : source.Covers token.span (token.before ++ token.text ++ after)) :
    Fills lexicon source (tokenPlace source token) token.text := by
  rw [tokenPlace_eq covers]
  exact fills_of_covers before behind covers

/-- The node of an operand is laid out where the operand lies. -/
theorem ofToken_laid {token : Token} (operand : token.isOperand = true)
    (filled : token.Filled lexicon source) :
    Laid lexicon source (ofToken source token) ∧ (ofToken source token).span = token.span := by
  rw [Token.Filled] at filled
  rw [ofToken]
  cases kind_eq : token.kind with
  | operator fixity => simp [Token.isOperand, kind_eq, Kind.isOperand, Kind.isOperator,
      Kind.fixity?] at operand
  | void =>
      rw [kind_eq] at filled
      obtain ⟨gap, blank, covers⟩ := filled
      exact ⟨.void blank covers, rfl⟩
  | nullary =>
      rw [kind_eq] at filled
      obtain ⟨before, after, behind, covers⟩ := filled
      exact ⟨.nullary (tokenPlace_fills before behind covers), rfl⟩
  | identifier =>
      rw [kind_eq] at filled
      obtain ⟨before, after, behind, covers⟩ := filled
      exact ⟨.leaf (tokenPlace_fills before behind covers), rfl⟩

/-! ## Operands of a group -/

/-- The spans of operands and of the operators between them. -/
def pieces : List Operator → List Node → List Span
  | [], operands => operands.map span
  | operators, [] => operators.map Operator.span
  | op :: operators, operand :: operands => operand.span :: op.span :: pieces operators operands

theorem mem_pieces (operators : List Operator) (operands : List Node) (covered : Span) :
    covered ∈ operators.map Operator.span ++ operands.map span ↔
      covered ∈ pieces operators operands := by
  induction operators generalizing operands with
  | nil => rfl
  | cons op operators ih =>
      cases operands with
      | nil => simp [pieces]
      | cons operand operands =>
          have rest := ih operands
          simp only [pieces, List.map_cons, List.cons_append, List.mem_cons, List.mem_append,
            ← rest]
          constructor
          · rintro (here | there | here | there)
            · exact .inr (.inl here)
            · exact .inr (.inr (.inl there))
            · exact .inl here
            · exact .inr (.inr (.inr there))
          · rintro (here | here | there | there)
            · exact .inr (.inr (.inl here))
            · exact .inl here
            · exact .inr (.inl there)
            · exact .inr (.inr (.inr there))

/-- A tree is built over whatever its elements tile. -/
def BuildsLaid (lexicon : Lexicon) (source : Source) (tree : Tree Token Operator) : Prop :=
  ∀ start stop node, Spread lexicon source start tree.elements stop →
    tree.build (nodeGrammar source) = .ok node →
      Laid lexicon source node ∧ node.span.start = start ∧ node.span.stop = stop

/-- Operands that lie one behind the other, with the texts of operators between
them. -/
structure LaidOut (lexicon : Lexicon) (source : Source) (start : Nat)
    (operators : List Operator) (operands : List Node) (stop : Nat) : Prop where
  joined : Joined source start operands (operators.map (·.token.text)) stop
  within : ∀ operand ∈ operands, Laid lexicon source operand
  tile : Span.Tile start (pieces operators operands) stop

theorem buildAll_laidOut {operators : List Operator} {operands : List (Tree Token Operator)}
    {nodes : List Node} (each : ∀ operand ∈ operands, BuildsLaid lexicon source operand)
    (arity : operands.length = operators.length + 1)
    (spread : Spread lexicon source start (Tree.elementsOf operators operands) stop)
    (build_eq : Tree.buildAll (nodeGrammar source) operands = .ok nodes) :
    LaidOut lexicon source start operators nodes stop := by
  induction operators generalizing operands nodes start with
  | nil =>
      obtain ⟨operand, rfl⟩ := List.length_eq_one_iff.mp arity
      obtain ⟨node, others, node_eq, others_eq, rfl⟩ := Tree.buildAll_cons_eq_ok_iff.mp build_eq
      cases others_eq
      rw [Tree.elementsOf_singleton] at spread
      obtain ⟨laid, start_eq, stop_eq⟩ :=
        each operand List.mem_cons_self start stop node spread node_eq
      refine ⟨.last_of_eq start_eq stop_eq, by simpa using laid, .cons_of_eq start_eq ?_⟩
      rw [stop_eq]
      exact .nil stop
  | cons op operators ih =>
      obtain ⟨operand, operands, rfl⟩ := List.exists_cons_of_length_eq_add_one arity
      obtain ⟨node, others, node_eq, others_eq, rfl⟩ := Tree.buildAll_cons_eq_ok_iff.mp build_eq
      rw [List.forall_mem_cons] at each
      rw [Tree.elementsOf_cons] at spread
      obtain ⟨middle, left, right⟩ := spread.exists_middle
      obtain ⟨op_start, covers, rest⟩ := right.operator
      obtain ⟨laid, start_eq, stop_eq⟩ := each.1 start middle node left node_eq
      obtain ⟨joined, within, tile⟩ := ih each.2 (by simpa using arity) rest others_eq
      have gap_eq : node.span.stop + op.token.text.utf8ByteSize = op.span.stop := by
        rw [stop_eq, ← op_start, covers.stop_eq]
      constructor
      · apply Joined.cons_of_eq start_eq
        · rw [stop_eq, ← op_start]
          exact covers.holds
        · rw [gap_eq]
          exact joined
      · exact List.forall_mem_cons.mpr ⟨laid, within⟩
      · exact .cons_of_eq start_eq (.cons_of_eq (by rw [op_start, stop_eq]) tile)

/-! ## Groups -/

section Groups

variable {first : Operator} {operators : List Operator} {operands : List Node} {node : Node}
  {range : Span}

/-- The smallest span of operators and operands is the part that they tile. -/
theorem coveredSpan?_eq (tile : Span.Tile start (pieces operators operands) stop)
    (nonempty : operators ≠ []) :
    coveredSpan? operators operands = some ⟨start, stop, tile.le⟩ := by
  apply Span.merge_eq_of_tile tile
  · simp [nonempty]
  · exact mem_pieces operators operands

/-- The text of an operator that takes a line is what its tag says. -/
theorem joint_lineTag (fits : first.token.Fits lexicon) (line : first.token.isLineLevel = true)
    (gaps : Nat) : (lineTag first operators).joints .block gaps =
      List.replicate gaps first.token.text := by
  rw [lineTag]
  cases lineBreak : first.token.isLineBreak with
  | true =>
      have synthetic : first.token.lexeme.isSynthetic = true := by
        rw [Token.isLineBreak] at lineBreak
        cases lexeme_eq : first.token.lexeme <;> simp_all [Lexeme.isSynthetic]
      rw [if_pos rfl, fits.text_eq_empty synthetic]
      split <;> exact Tag.joints_of_lines gaps (by decide)
  | false =>
      have long : 3 ≤ first.token.text.length := by
        rw [Token.isLineLevel, lineBreak, Bool.false_or] at line
        exact (fits.line_operator line).2
      rw [if_neg Bool.false_ne_true, Tag.joints, Tag.joint, if_neg]
      rintro ⟨_, lines⟩
      simp only [Tag.paragraph, Tag.blank, Tag.indented, List.mem_cons, Tag.single.injEq,
        List.not_mem_nil, or_false] at lines
      rcases lines with text_eq | text_eq | text_eq <;> rw [text_eq] at long <;>
        exact absurd long (by decide)

theorem texts_eq_replicate {text : String}
    (same : operators.all (·.token.text == text) = true) :
    operators.map (·.token.text) = List.replicate operators.length text := by
  rw [List.eq_replicate_iff]
  constructor
  · exact List.length_map _
  · intro other member
    obtain ⟨op, opMem, rfl⟩ := List.mem_map.mp member
    exact beq_iff_eq.mp (List.all_eq_true.mp same op opMem)

theorem joints_of_inlineTag {tag : Tag} (tag_eq : inlineTag? first operators = some tag) :
    tag.joints .inline operators.length = operators.map (·.token.text) := by
  simp only [inlineTag?] at tag_eq
  split at tag_eq
  · next same =>
      cases tag_eq
      rw [Tag.joints, Tag.joint_inline, ← texts_eq_replicate same]
  · split at tag_eq
    · next opener closer =>
        cases tag_eq
        rfl
    · contradiction

/-- The tag of a group names the texts of its operators. -/
theorem ofTagged_laid (fits : first.token.Fits lexicon)
    (laidOut : LaidOut lexicon source start (first :: operators) operands stop)
    (start_eq : range.start = start) (stop_eq : range.stop = stop)
    (build_eq : ofTagged first (first :: operators) operands range = .ok node) :
    Laid lexicon source node ∧ node.span = range := by
  have joined := laidOut.joined
  have length_eq := joined.length_eq
  rw [List.length_map] at length_eq
  have gaps_eq : operands.length - 1 = (first :: operators).length := by
    rw [length_eq, Nat.add_sub_cancel]
  rw [← start_eq, ← stop_eq] at joined
  rcases ofTagged_cases build_eq with ⟨line, same, rfl⟩ | ⟨tag, tag_eq, rfl⟩
  · refine ⟨.group ?_ laidOut.within, rfl⟩
    rw [gaps_eq, joint_lineTag fits line, ← texts_eq_replicate same]
    exact joined
  · refine ⟨.group ?_ laidOut.within, rfl⟩
    rw [gaps_eq, joints_of_inlineTag tag_eq]
    exact joined

end Groups

/-! ## Indented parts -/

section Indented

variable {indent dedent : Operator} {front head body tail last : Node} {range : Span}

/-- The lines of a body cover what the body does. -/
theorem bodyLines_joined (laid : Laid lexicon source body) :
    ∃ gaps, Joined source body.span.start (bodyLines body) (List.replicate gaps "")
        body.span.stop ∧
      ∀ line ∈ bodyLines body, Laid lexicon source line := by
  rcases bodyLines_cases body with single_eq | ⟨wide, lines, place, rfl, lines_eq⟩
  · rw [single_eq]
    exact ⟨0, .last body, List.forall_mem_singleton.mpr laid⟩
  · rw [lines_eq]
    cases laid with
    | group joined within =>
        rw [Tag.joints_of_lines _ (by decide)] at joined
        exact ⟨_, joined, within⟩

/-- A body and a tail that lie on either side of nothing. -/
structure Follows (lexicon : Lexicon) (source : Source) (front body tail : Node) (stop : Nat) :
    Prop where
  frontHolds : source.Holds front.span.stop ""
  body_start : body.span.start = front.span.stop
  bodyHolds : source.Holds body.span.stop ""
  tail_start : tail.span.start = body.span.stop
  tail_stop : tail.span.stop = stop
  bodyLaid : Laid lexicon source body
  tailLaid : Laid lexicon source tail

namespace Follows

/-- The lines of a body stand between what comes before it and behind it. -/
theorem joined (follows : Follows lexicon source front body tail stop) :
    ∃ gaps, Joined source front.span.start (front :: bodyLines body ++ [tail])
      (List.replicate gaps "") stop := by
  obtain ⟨gaps, lines, _⟩ := bodyLines_joined follows.bodyLaid
  refine ⟨gaps + 1 + 1, ?_⟩
  rw [List.replicate_succ, List.replicate_succ', List.cons_append]
  apply Joined.cons follows.frontHolds
  have start_eq : front.span.stop + "".utf8ByteSize = body.span.start := follows.body_start.symm
  rw [start_eq]
  exact lines.append follows.bodyHolds (.last_of_eq follows.tail_start follows.tail_stop)

theorem within (follows : Follows lexicon source front body tail stop)
    (laid : Laid lexicon source front) :
    ∀ line ∈ front :: bodyLines body ++ [tail], Laid lexicon source line := by
  obtain ⟨_, _, lines⟩ := bodyLines_joined follows.bodyLaid
  intro line member
  rw [List.cons_append] at member
  rcases List.mem_cons.mp member with rfl | behind
  · exact laid
  · rcases List.mem_append.mp behind with inner | final
    · exact lines line inner
    · rw [List.mem_singleton.mp final]
      exact follows.tailLaid

/-- The indent and the dedent lie at the ends of the body, so they do not stretch
the part that its lines cover. -/
theorem coveredSpan?_eq (follows : Follows lexicon source front body tail stop)
    (tile : Span.Tile front.span.stop [indent.span, body.span, dedent.span, tail.span] stop)
    (le : front.span.start ≤ stop) :
    coveredSpan? [indent, dedent] (front :: bodyLines body ++ [tail]) =
      some ⟨front.span.start, stop, le⟩ := by
  obtain ⟨gaps, lines, _⟩ := bodyLines_joined follows.bodyLaid
  obtain ⟨indent_start, behindIndent⟩ := tile.uncons
  obtain ⟨body_start, ending⟩ := behindIndent.uncons
  have spread : Span.Tile front.span.start (front.span :: indent.span ::
      ((bodyLines body).map span ++ [dedent.span, tail.span])) stop := by
    apply Span.Tile.cons
    apply Span.Tile.cons_of_eq indent_start
    rw [← body_start]
    exact lines.tile.append ending
  apply Span.merge_eq_of_tile spread
  · exact List.cons_ne_nil _ _
  · intro covered
    simp only [List.map_cons, List.map_nil, List.map_append, List.cons_append, List.nil_append,
      List.mem_cons, List.mem_append, List.not_mem_nil, or_false]
    tauto

end Follows

/-- A head that does not take the indented part is its first line. -/
theorem block_laid (follows : Follows lexicon source head body tail stop)
    (headLaid : Laid lexicon source head) (start_eq : range.start = head.span.start)
    (stop_eq : range.stop = stop) :
    Laid lexicon source (block .indented (head :: bodyLines body ++ [tail]) range) := by
  obtain ⟨gaps, joined⟩ := follows.joined
  apply Laid.block (by decide) _ (follows.within headLaid)
  · exact gaps
  · rw [start_eq, stop_eq]
    exact joined

/-- Another node may stand in the place of the last operand of a group, with all
that lies behind it. -/
theorem group_laid_of_last {form : Form} {tag : Tag} {wide : Bool} {before : List Node}
    {other : Node} {place : Place}
    (laid : Laid lexicon source (.group form tag wide (before ++ [last]) place))
    (otherLaid : Laid lexicon source other) (other_start : other.span.start = last.span.start)
    (start_eq : range.start = place.span.start) (stop_eq : range.stop = other.span.stop) :
    Laid lexicon source
      (.group form tag wide (before ++ [other]) { place with span := range }) := by
  cases laid with
  | group joined within =>
      refine .group ?_ ?_
      · rw [start_eq, stop_eq]
        simpa using (joined.replace_last other_start).1
      · intro child member
        rcases List.mem_append.mp member with earlier | final
        · exact within child (List.mem_append_left _ earlier)
        · rw [List.mem_singleton.mp final]
          exact otherLaid

theorem last_of_laid {form : Form} {tag : Tag} {wide : Bool} {before : List Node} {place : Place}
    (laid : Laid lexicon source (.group form tag wide (before ++ [last]) place)) :
    Laid lexicon source last ∧ place.span.stop = last.span.stop := by
  cases laid with
  | group joined within =>
      constructor
      · exact within last (List.mem_append_right _ List.mem_cons_self)
      · exact (joined.replace_last rfl).2

/-- A head that takes the indented part has it as its last operand. -/
theorem splice_laid {tag : Tag} {wide : Bool} {before : List Node} {place : Place}
    (headLaid : Laid lexicon source (.group .inline tag wide (before ++ [last]) place))
    (follows : Follows lexicon source (.group .inline tag wide (before ++ [last]) place) body tail
      stop)
    (tile : Span.Tile place.span.stop [indent.span, body.span, dedent.span, tail.span] stop)
    (start_eq : range.start = place.span.start) (stop_eq : range.stop = stop) :
    Laid lexicon source (.group .inline tag wide
      (before ++ [block .indented (last :: bodyLines body ++ [tail])
        ((coveredSpan? [indent, dedent] (last :: bodyLines body ++ [tail])).getD range)])
      { place with span := range }) := by
  obtain ⟨lastLaid, last_stop⟩ := last_of_laid headLaid
  have behindLast : Follows lexicon source last body tail stop :=
    { follows with
      frontHolds := last_stop ▸ follows.frontHolds
      body_start := follows.body_start.trans last_stop }
  obtain ⟨_, lines⟩ := behindLast.joined
  rw [last_stop] at tile
  have innerLaid : Laid lexicon source (block .indented (last :: bodyLines body ++ [tail])
      ⟨last.span.start, stop, lines.le⟩) := block_laid behindLast lastLaid rfl rfl
  rw [behindLast.coveredSpan?_eq tile lines.le, Option.getD_some]
  exact group_laid_of_last headLaid innerLaid rfl start_eq stop_eq

/-- The group of an indent and a dedent is laid out where its operands lie, also
where its head takes the indented part. -/
theorem indentBlock_laid
    (laidOut : LaidOut lexicon source start [indent, dedent] [head, body, tail] stop)
    (indent_eq : indent.token.text = "") (dedent_eq : dedent.token.text = "")
    (start_eq : range.start = start) (stop_eq : range.stop = stop) :
    Laid lexicon source (indentBlock [indent, dedent] range head body tail) ∧
      (indentBlock [indent, dedent] range head body tail).span = range := by
  obtain ⟨joined, within, tile⟩ := laidOut
  simp only [List.map_cons, List.map_nil, indent_eq, dedent_eq] at joined
  simp only [List.forall_mem_cons] at within
  obtain ⟨headLaid, bodyLaid, tailLaid, _⟩ := within
  obtain ⟨head_start, headHolds, behindHead⟩ := joined.uncons
  obtain ⟨body_start, bodyHolds, behindBody⟩ := behindHead.uncons
  obtain ⟨tail_start, tail_stop⟩ := behindBody.ends
  have follows : Follows lexicon source head body tail stop :=
    ⟨headHolds, body_start, bodyHolds, tail_start, tail_stop, bodyLaid, tailLaid⟩
  rw [← head_start] at start_eq
  rcases indentBlock_cases [indent, dedent] range head body tail with
    line_eq | ⟨tag, wide, before, last, place, _, rfl, spliced_eq⟩
  · rw [line_eq]
    exact ⟨block_laid follows headLaid start_eq stop_eq, rfl⟩
  · rw [spliced_eq]
    exact ⟨splice_laid headLaid follows tile.uncons.2 start_eq stop_eq, rfl⟩

end Indented

/-! ## Trees -/

section Trees

variable {operators : List Operator} {operands : List Node} {node : Node}

/-- A group is laid out where its operators and operands lie. -/
theorem ofGroup_laid (fits : ∀ op ∈ operators, op.token.Fits lexicon)
    (laidOut : LaidOut lexicon source start operators operands stop)
    (build_eq : ofGroup operators operands = .ok node) :
    Laid lexicon source node ∧ node.span.start = start ∧ node.span.stop = stop := by
  obtain ⟨_, first, rest, span, rfl, span_eq, cases_eq⟩ := ofGroup_cases build_eq
  rw [coveredSpan?_eq laidOut.tile (List.cons_ne_nil first rest)] at span_eq
  suffices holds : Laid lexicon source node ∧ node.span = span by
    rw [holds.2, ← Option.some.inj span_eq]
    exact ⟨holds.1, rfl, rfl⟩
  obtain rfl := Option.some.inj span_eq
  rcases cases_eq with ⟨pair, head, body, tail, rfl, rfl⟩ | ⟨_, tagged_eq⟩
  · obtain ⟨indent, dedent, operators_eq, indent_eq, dedent_eq⟩ := exists_of_isIndentPair pair
    cases operators_eq
    simp only [List.forall_mem_cons] at fits
    apply indentBlock_laid laidOut
    · exact fits.1.text_eq_empty (by rw [indent_eq]; rfl)
    · exact fits.2.1.text_eq_empty (by rw [dedent_eq]; rfl)
    · rfl
    · rfl
  · exact ofTagged_laid (fits first List.mem_cons_self) laidOut rfl rfl tagged_eq

/-- A tree is built over what its elements tile. -/
theorem build_laid {tree : Tree Token Operator} (ordered : tree.Ordered Operator.order)
    (fits : ∀ element ∈ tree.elements, element.Fits lexicon) : BuildsLaid lexicon source tree := by
  induction ordered with
  | leaf operand =>
      intro start stop node spread build_eq
      cases build_eq
      rw [Tree.elements_leaf] at spread
      obtain ⟨isOperand, filled, start_eq, stop_eq⟩ := spread.operand
      obtain ⟨laid, span_eq⟩ := ofToken_laid isOperand filled
      exact ⟨laid, (congrArg Span.start span_eq).trans start_eq,
        (congrArg Span.stop span_eq).trans stop_eq⟩
  | @group operators operands _ arity _ _ _ _ ih =>
      intro start stop node spread build_eq
      obtain ⟨nodes, nodes_eq, node_eq⟩ := Except.bind_eq_ok_iff.mp build_eq
      apply ofGroup_laid _ _ node_eq
      · intro op member
        exact (fits (.operator op) (Tree.mem_elementsOf_operator member)).1
      · refine buildAll_laidOut ?_ arity spread nodes_eq
        intro operand member
        apply ih operand member
        intro element within
        exact fits element (Tree.mem_elementsOf_operand member within)

end Trees

end Node

end OperatorMarkup
