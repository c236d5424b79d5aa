import Mathlib
import OperatorMarkup.Proofs.Grouping.Relating
import OperatorMarkup.Proofs.Grouping.Unique
import OperatorMarkup.Proofs.Operator.Nesting
import OperatorMarkup.Proofs.Operator.Split

/-!
# How infix operators bind

Grouping reads a chain of infix operators once, and compares neighbours only.  What
it builds is what the split from above builds, since the split is ordered and a
sequence has one ordered tree.
-/

namespace OperatorMarkup

open Grouping Grouping.Tree

/-- Operators between two operands: those of the text, separators, line ends, and
operands side by side.  Only those of the text take a line to themselves. -/
structure Token.IsInfix (token : Token) : Prop where
  kind_eq : token.kind = .operator .infixOp
  lexeme_mem : token.lexeme ∈ [.operator, .separator, .lineBreak, .juxtaposition]
  lexeme_eq : token.lineOperator = true → token.lexeme = .operator

namespace Operator

variable {α : Type}

/-! ## Operators that join -/

/-- An operator with one face on both sides, which joins with its own kind. -/
structure Joins (op : Operator) : Prop where
  right_eq : op.right = op.left
  merge_eq : op.left.merge = .same
  ruled : op.left.Ruled

theorem ofToken_joins (lexicon : Lexicon) {token : Token} (between : token.IsInfix) :
    (ofToken lexicon token).Joins := by
  have ruled := (ofToken_ruled lexicon token).1
  have lexemes := between.lexeme_mem
  simp only [List.mem_cons, List.not_mem_nil, or_false] at lexemes
  rcases lexemes with lexeme_eq | lexeme_eq | lexeme_eq | lexeme_eq
  · cases line : token.lineOperator with
    | true =>
        constructor
        · simp [ofToken, faces, lexeme_eq, line, between.kind_eq, Kind.fixity?, lineFaces]
        · simp [ofToken, faces, lexeme_eq, line, between.kind_eq, Kind.fixity?, lineFaces]
        · exact ruled
    | false =>
        constructor
        · simp [ofToken, faces, lexeme_eq, line, between.kind_eq, Kind.fixity?, inlineFaces]
        · simp [ofToken, faces, lexeme_eq, line, between.kind_eq, Kind.fixity?, inlineFaces]
        · exact ruled
  all_goals
    refine ⟨?_, ?_, ruled⟩ <;> simp [ofToken, faces, lexeme_eq]

namespace Joins

variable {left right : Operator}

theorem isRequired_eq (joins : left.Joins) : left.right.merge.isRequired = false := by
  rw [joins.right_eq, joins.merge_eq]
  rfl

theorem accepts_eq (leftJoins : left.Joins) (rightJoins : right.Joins) :
    left.right.accepts right.left =
      (left.left.text == right.left.text && left.left.priority == right.left.priority) := by
  rw [leftJoins.right_eq, Face.accepts, leftJoins.merge_eq, rightJoins.merge_eq]

/-- Operators of one text that bind equally join. -/
theorem order_of_same (leftJoins : left.Joins) (rightJoins : right.Joins)
    (text_eq : left.left.text = right.left.text)
    (priority_eq : left.left.priority = right.left.priority) :
    order left right = .ok .aggregate := by
  apply order_of_accepts
  rw [leftJoins.accepts_eq rightJoins, text_eq, priority_eq]
  simp

/-- Before a looser operator the group ends. -/
theorem order_of_looser (leftJoins : left.Joins) (rightJoins : right.Joins)
    (looser : right.left.priority < left.left.priority) : order left right = .ok .left := by
  have priority_ne : left.left.priority ≠ right.left.priority := by
    intro priority_eq
    rw [priority_eq] at looser
    exact Priority.lt_irrefl _ looser
  rw [order, if_neg (by simp [leftJoins.accepts_eq rightJoins, priority_ne]),
    if_neg (by simp [leftJoins.isRequired_eq]), leftJoins.right_eq, if_pos looser]

/-- Before a tighter operator a group starts. -/
theorem order_of_tighter (leftJoins : left.Joins) (rightJoins : right.Joins)
    (tighter : left.left.priority < right.left.priority) : order left right = .ok .right := by
  have priority_ne : left.left.priority ≠ right.left.priority := by
    intro priority_eq
    rw [priority_eq] at tighter
    exact Priority.lt_irrefl _ tighter
  rw [order, if_neg (by simp [leftJoins.accepts_eq rightJoins, priority_ne]),
    if_neg (by simp [leftJoins.isRequired_eq]), leftJoins.right_eq,
    if_neg (Priority.lt_asymm tighter), if_pos tighter]

/-- Operators of one priority lean to one side. -/
theorem tie_eq (leftJoins : left.Joins) (rightJoins : right.Joins)
    (priority_eq : left.left.priority = right.left.priority) : left.left.tie = right.left.tie := by
  rw [leftJoins.ruled.tie_eq, rightJoins.ruled.tie_eq, priority_eq]

/-- Between operators that bind equally and go by two texts, the tie decides. -/
theorem order_of_tie (leftJoins : left.Joins) (rightJoins : right.Joins)
    (text_ne : left.left.text ≠ right.left.text)
    (priority_eq : left.left.priority = right.left.priority) :
    order left right = .ok (if left.left.tie = .right then .right else .left) := by
  have leftRuled : left.right.Ruled := leftJoins.right_eq ▸ leftJoins.ruled
  obtain ⟨decision, decision_eq⟩ := exists_order_of_not_required leftRuled rightJoins.ruled
    (by rw [leftJoins.isRequired_eq, Bool.false_and])
  rw [order, if_neg (by simp [leftJoins.accepts_eq rightJoins, text_ne]),
    if_neg (by simp [leftJoins.isRequired_eq]), leftJoins.right_eq, priority_eq,
    if_neg (Priority.lt_irrefl _), if_neg (Priority.lt_irrefl _),
    ← leftJoins.tie_eq rightJoins priority_eq] at decision_eq ⊢
  cases tie_eq : left.left.tie <;> rw [tie_eq] at decision_eq <;> first | rfl | contradiction

end Joins

/-! ## The split is ordered -/

section Ordered

variable {loosest : Priority} {parts : Chain (Chain α Operator) Operator}
  {part first : Chain α Operator} {links : List (Operator × Chain α Operator)} {op : Operator}

/-- What binds tighter starts behind an operator. -/
theorem startsInside_of_tighter (opJoins : op.Joins)
    (tighter : ∀ other ∈ part.operators, other.Joins ∧ op.left.priority < other.left.priority) :
    (splitTree part).StartsInside order op := by
  intro operators member first firstMem
  have inside : first ∈ part.operators := mem_elements_splitTree_iff.mp
    (mem_elements_of_mem_leftSpine _ member (List.mem_of_mem_head? firstMem))
  exact opJoins.order_of_tighter (tighter first inside).1 (tighter first inside).2

/-- What binds tighter ends before an operator. -/
theorem endsBefore_of_tighter (opJoins : op.Joins)
    (tighter : ∀ other ∈ part.operators, other.Joins ∧ op.left.priority < other.left.priority) :
    (splitTree part).EndsBefore order op := by
  intro operators member last lastMem
  have inside : last ∈ part.operators := mem_elements_splitTree_iff.mp
    (mem_elements_of_mem_rightSpine _ member (List.mem_of_getLast? lastMem))
  exact (tighter last inside).1.order_of_looser opJoins (tighter last inside).2

/-- Parts with operators between them that bind as one does, and with tighter ones
inside, all of which join. -/
structure PartedAs (op : Operator) (parts : Chain (Chain α Operator) Operator) : Prop where
  cuts : ∀ link ∈ parts.rest, link.1.Joins ∧ op.left.priority = link.1.left.priority
  within : ∀ part ∈ parts.operands, ∀ other ∈ part.operators,
    other.Joins ∧ op.left.priority < other.left.priority

namespace PartedAs

theorem parted (partedAs : PartedAs op parts) : Parted op.left.priority parts := by
  constructor
  · intro other isCut
    obtain ⟨link, member, rfl⟩ := List.mem_map.mp isCut
    exact (partedAs.cuts link member).2.symm
  · intro part partMem other inside
    exact (partedAs.within part partMem other inside).2

theorem tie_eq (partedAs : PartedAs op parts) (opJoins : op.Joins) :
    ∀ link ∈ parts.rest, link.1.left.tie = op.left.tie := by
  intro link member
  obtain ⟨cutJoins, cut_eq⟩ := partedAs.cuts link member
  exact (opJoins.tie_eq cutJoins cut_eq).symm

theorem of_parted (parted : Parted loosest parts) (member : op ∈ parts.operators)
    (joins : ∀ other ∈ parts.join.operators, other.Joins) : PartedAs op parts := by
  have priority_eq := parted.cuts op member
  constructor
  · intro link linkMem
    have isCut : link.1 ∈ parts.operators := List.mem_map_of_mem linkMem
    exact ⟨joins link.1 (Chain.mem_operators_join.mpr (.inl isCut)),
      priority_eq.trans (parted.cuts link.1 isCut).symm⟩
  · intro part partMem other inside
    exact ⟨joins other (Chain.mem_operators_join.mpr (.inr ⟨part, partMem, inside⟩)),
      priority_eq ▸ parted.kept part partMem other inside⟩

/-- Any of the operators between the parts may stand for the others. -/
theorem of_mem (partedAs : PartedAs op parts) {link : Operator × Chain α Operator}
    (member : link ∈ parts.rest) : link.1.Joins ∧ PartedAs link.1 parts := by
  obtain ⟨cutJoins, cut_eq⟩ := partedAs.cuts link member
  exact ⟨cutJoins, cut_eq ▸ partedAs.cuts, cut_eq ▸ partedAs.within⟩

/-- Parts in a row are parted as all are. -/
theorem of_subset (partedAs : PartedAs op parts) {part : Chain α Operator}
    {links : List (Operator × Chain α Operator)} (partMem : part ∈ parts.operands)
    (linksMem : links ⊆ parts.rest) : PartedAs op ⟨part, links⟩ := by
  constructor
  · exact fun link member => partedAs.cuts link (linksMem member)
  · intro other member
    rcases List.mem_cons.mp member with rfl | later
    · exact partedAs.within other partMem
    · exact partedAs.within other (List.mem_cons_of_mem _ (List.map_subset _ linksMem later))

end PartedAs

/-- All that lies behind a run at the front starts behind the last operator of the
run. -/
theorem startsInside_joinFrom (opJoins : op.Joins) (tie_eq : op.left.tie = .right)
    (partedAs : PartedAs op ⟨part, links⟩)
    (stops : ∀ link ∈ links.head?, link.1.left.text ≠ op.left.text) :
    (splitTree (Chain.joinFrom part links)).StartsInside order op := by
  have tight : (splitTree part).StartsInside order op :=
    startsInside_of_tighter opJoins (partedAs.within part List.mem_cons_self)
  by_cases plain : links = []
  · rw [plain]
    exact tight
  · obtain ⟨rest, gather_eq, head_eq⟩ := gather_first part plain
      fun link member => (partedAs.tie_eq opJoins link member).trans tie_eq
    have tree_eq := splitTree_join partedAs.parted plain
    rw [gather_eq] at tree_eq
    intro operators member first firstMem
    change operators ∈ (splitTree (Chain.join ⟨part, links⟩)).leftSpine at member
    rw [tree_eq] at member
    rcases List.mem_cons.mp member with rfl | inner
    · obtain ⟨link, linkMem, rfl⟩ : ∃ link ∈ links.head?, link.1 = first := by
        rw [Chain.operators, List.head?_map, head_eq] at firstMem
        exact Option.map_eq_some_iff.mp firstMem
      obtain ⟨cutJoins, cut_eq⟩ := partedAs.cuts link (List.mem_of_mem_head? linkMem)
      rw [opJoins.order_of_tie cutJoins (stops link linkMem).symm cut_eq, if_pos tie_eq]
    · exact tight operators inner first firstMem

/-- All that lies before a run at the end ends before the first operator of the
run. -/
theorem endsBefore_joinFrom (opJoins : op.Joins) (partedAs : PartedAs op ⟨part, links⟩)
    (stops : ∀ link ∈ links.getLast?, op.left.tie ≠ .right ∧ link.1.left.text ≠ op.left.text) :
    (splitTree (Chain.joinFrom part links)).EndsBefore order op := by
  rcases List.eq_nil_or_concat links with rfl | ⟨front, link, rfl⟩
  · exact endsBefore_of_tighter opJoins (partedAs.within part List.mem_cons_self)
  · rw [List.concat_eq_append] at *
    have linkMem : link ∈ front ++ [link] := by simp
    obtain ⟨tie_ne, text_ne⟩ := stops link (by simp)
    obtain ⟨cutJoins, cut_eq⟩ := partedAs.cuts link linkMem
    have tight : (splitTree link.2).EndsBefore order op :=
      endsBefore_of_tighter opJoins
        (partedAs.within link.2 (List.mem_cons_of_mem _ (List.mem_map_of_mem linkMem)))
    obtain ⟨first, rest, gather_eq, last_eq⟩ := gather_last part (List.ne_nil_of_mem linkMem)
      fun link member => by rwa [partedAs.tie_eq opJoins link member]
    rw [List.getLast?_concat, List.getLast?_eq_some_iff] at last_eq
    obtain ⟨init, rfl⟩ := last_eq
    have tree_eq := splitTree_join partedAs.parted (List.ne_nil_of_mem linkMem)
    have operands_eq : (⟨first, init ++ [link]⟩ : Chain _ _).operands.map splitTree =
        (first :: init.map Prod.snd).map splitTree ++ [splitTree link.2] := by
      simp [Chain.operands]
    rw [gather_eq, operands_eq] at tree_eq
    intro operators member last lastMem
    change operators ∈ (splitTree (Chain.join ⟨part, front ++ [link]⟩)).rightSpine at member
    rw [tree_eq, rightSpine, rightSpineOf_append] at member
    rcases List.mem_cons.mp member with rfl | inner
    · have last_is : link.1 = last := by simpa [Chain.operators] using lastMem
      rw [← last_is, cutJoins.order_of_tie opJoins text_ne cut_eq.symm,
        ← opJoins.tie_eq cutJoins cut_eq, if_neg tie_ne]
    · exact tight operators inner last lastMem

/-- Parts between operators of one kind are an ordered group where they start behind
and end before these. -/
theorem ordered_group (op : Operator) (parts : Chain (Chain α Operator) Operator)
    (nonempty : parts.rest ≠ []) (oneText : OneText parts.operators)
    (cuts : ∀ link ∈ parts.rest, link.1.Joins ∧ op.left.priority = link.1.left.priority)
    (starts : ∀ link ∈ parts.rest, (splitTree link.2).StartsInside order link.1)
    (ends : ∀ pair ∈ parts.operands.zip parts.operators,
      (splitTree pair.1).EndsBefore order pair.2)
    (within : ∀ part ∈ parts.operands, (splitTree part).Ordered order) :
    (group parts.operators (parts.operands.map splitTree)).Ordered order := by
  have joins : ∀ other ∈ parts.operators,
      other.Joins ∧ op.left.priority = other.left.priority := by
    intro other member
    obtain ⟨link, linkMem, rfl⟩ := List.mem_map.mp member
    exact cuts link linkMem
  constructor
  · simpa [Chain.operators] using nonempty
  · simp [Chain.operators, Chain.operands]
  · intro pair member
    have left := (List.of_mem_zip member).1
    have right := List.mem_of_mem_tail (List.of_mem_zip member).2
    exact (joins _ left).1.order_of_same (joins _ right).1 (oneText _ left _ right)
      ((joins _ left).2.symm.trans (joins _ right).2)
  · intro pair member
    simp only [Chain.operators, Chain.operands, List.map_cons, List.tail_cons, List.map_map]
      at member
    rw [List.zip_map', List.mem_map] at member
    obtain ⟨link, linkMem, rfl⟩ := member
    exact starts link linkMem
  · intro pair member
    rw [List.zip_map_left, List.mem_map] at member
    obtain ⟨pair, pairMem, rfl⟩ := member
    exact ends pair pairMem
  · simpa using within

theorem ordered_front {run behind : List (Operator × Chain α Operator)} {last : Operator}
    (partedAs : PartedAs op ⟨first, run ++ (last, part) :: behind⟩)
    (oneText : OneText (run.map Prod.fst ++ [last])) (tie_eq : last.left.tie = .right)
    (stops : ∀ link ∈ behind.head?, link.1.left.text ≠ last.left.text)
    (within : ∀ operand ∈ first :: run.map Prod.snd ++ [Chain.joinFrom part behind],
      (splitTree operand).Ordered order) :
    (group (run.map Prod.fst ++ [last])
      ((first :: run.map Prod.snd ++ [Chain.joinFrom part behind]).map splitTree)).Ordered
        order := by
  have lastMem : (last, part) ∈ run ++ (last, part) :: behind := by simp
  have runMem : ∀ link ∈ run, link ∈ run ++ (last, part) :: behind :=
    fun link member => List.mem_append_left _ member
  obtain ⟨lastJoins, lastParted⟩ := partedAs.of_mem lastMem
  have last_eq := (partedAs.cuts _ lastMem).2
  have assembled := ordered_group op ⟨first, run ++ [(last, Chain.joinFrom part behind)]⟩
    (by simp) (by simpa [Chain.operators] using oneText) ?_ ?_ ?_
    (by simpa [Chain.operands] using within)
  · simpa [Chain.operators, Chain.operands] using assembled
  · intro link member
    rcases List.mem_append.mp member with inRun | isLast
    · exact partedAs.cuts link (runMem link inRun)
    · rw [List.mem_singleton.mp isLast]
      exact ⟨lastJoins, last_eq⟩
  · intro link member
    rcases List.mem_append.mp member with inRun | isLast
    · obtain ⟨linkJoins, linkParted⟩ := partedAs.of_mem (runMem link inRun)
      refine startsInside_of_tighter linkJoins (linkParted.within link.2 ?_)
      exact List.mem_cons_of_mem _ (List.mem_map_of_mem (runMem link inRun))
    · rw [List.mem_singleton.mp isLast]
      apply startsInside_joinFrom lastJoins tie_eq _ stops
      exact lastParted.of_subset (List.mem_cons_of_mem _ (List.mem_map_of_mem lastMem))
        (fun link member => by simp [member])
  · rw [Chain.zip_operators_concat]
    intro pair member
    obtain ⟨operandMem, operatorMem⟩ := List.of_mem_zip member
    obtain ⟨link, linkMem, link_eq⟩ : ∃ link ∈ run ++ (last, part) :: behind, link.1 = pair.2 := by
      rcases List.mem_append.mp operatorMem with inRun | isLast
      · obtain ⟨link, linkMem, link_eq⟩ := List.mem_map.mp inRun
        exact ⟨link, runMem link linkMem, link_eq⟩
      · exact ⟨_, lastMem, (List.mem_singleton.mp isLast).symm⟩
    obtain ⟨linkJoins, linkParted⟩ := partedAs.of_mem linkMem
    rw [← link_eq]
    apply endsBefore_of_tighter linkJoins (linkParted.within pair.1 _)
    rw [Chain.operands, List.map_append, ← List.cons_append]
    exact List.mem_append_left _ operandMem

theorem ordered_back {front run : List (Operator × Chain α Operator)} {head : Operator}
    (partedAs : PartedAs op ⟨first, front ++ (head, part) :: run⟩)
    (oneText : OneText (head :: run.map Prod.fst))
    (stops : ∀ link ∈ front.getLast?,
      head.left.tie ≠ .right ∧ link.1.left.text ≠ head.left.text)
    (within : ∀ operand ∈ Chain.joinFrom first front :: part :: run.map Prod.snd,
      (splitTree operand).Ordered order) :
    (group (head :: run.map Prod.fst)
      ((Chain.joinFrom first front :: part :: run.map Prod.snd).map splitTree)).Ordered
        order := by
  have runMem : ∀ link ∈ (head, part) :: run, link ∈ front ++ (head, part) :: run :=
    fun link member => List.mem_append_right _ member
  obtain ⟨headJoins, headParted⟩ := partedAs.of_mem (runMem _ List.mem_cons_self)
  apply ordered_group op ⟨Chain.joinFrom first front, (head, part) :: run⟩ (by simp) oneText _ _ _
    within
  · exact fun link member => partedAs.cuts link (runMem link member)
  · intro link member
    obtain ⟨linkJoins, linkParted⟩ := partedAs.of_mem (runMem link member)
    exact startsInside_of_tighter linkJoins
      (linkParted.within link.2 (List.mem_cons_of_mem _ (List.mem_map_of_mem (runMem link member))))
  · intro pair member
    rcases List.mem_cons.mp member with rfl | later
    · apply endsBefore_joinFrom headJoins _ stops
      exact headParted.of_subset List.mem_cons_self (fun link member => by simp [member])
    · obtain ⟨operandMem, operatorMem⟩ := List.of_mem_zip later
      obtain ⟨link, linkMem, link_eq⟩ := List.mem_map.mp operatorMem
      obtain ⟨linkJoins, linkParted⟩ :=
        partedAs.of_mem (runMem link (List.mem_cons_of_mem _ linkMem))
      rw [← link_eq]
      apply endsBefore_of_tighter linkJoins (linkParted.within pair.1 _)
      rw [Chain.operands, List.map_append]
      exact List.mem_cons_of_mem _ (List.mem_append_right _ operandMem)

/-- The parts that gathering leaves are an ordered group. -/
theorem ordered_gather (nonempty : links ≠ []) (opJoins : op.Joins)
    (partedAs : PartedAs op ⟨first, links⟩)
    (within : ∀ part ∈ (gather ⟨first, links⟩).operands, (splitTree part).Ordered order) :
    (group (gather ⟨first, links⟩).operators
      ((gather ⟨first, links⟩).operands.map splitTree)).Ordered order := by
  obtain ⟨chosen, chosenMem, gathered⟩ := gather_spec ⟨first, links⟩ nonempty
  obtain ⟨link, linkMem, rfl⟩ := List.mem_map.mp chosenMem
  rw [partedAs.tie_eq opJoins link linkMem] at gathered
  generalize gather ⟨first, links⟩ = parts at gathered within
  cases gathered with
  | front run last part behind tie_eq oneText stops =>
      have ordered := ordered_front partedAs oneText
        ((partedAs.tie_eq opJoins (last, part) (by simp)).trans tie_eq) stops
        (by simpa [Chain.operands] using within)
      simpa [Chain.operators, Chain.operands] using ordered
  | back front head part run oneText stops =>
      exact ordered_back partedAs oneText
        (fun link member => by
          rw [partedAs.tie_eq opJoins (head, part) (by simp)]
          exact stops link member) within

end Ordered

/-- Where operators join, the split of a chain is ordered. -/
theorem splitTree_ordered {chain : Chain α Operator} (joins : ∀ op ∈ chain.operators, op.Joins) :
    (splitTree chain).Ordered order := by
  induction chain using splitTree.induct with
  | case1 chain plain =>
      rw [splitTree_of_nil plain]
      exact .leaf _
  | case2 chain nonempty ih =>
      obtain ⟨loosest, parts, parted, cuts, rfl⟩ := exists_parted nonempty
      -- Any of the operators that cut will do, since they bind alike and lean to one side.
      obtain ⟨op, isCut⟩ := List.exists_mem_of_ne_nil parts.operators
        (by simpa [Chain.operators] using cuts)
      have opJoins := joins op (Chain.mem_operators_join.mpr (.inl isCut))
      rw [parted.divide_join cuts] at ih
      rw [splitTree_join parted cuts]
      apply ordered_gather cuts opJoins (.of_parted parted isCut joins)
      intro part partMem
      apply ih ⟨part, partMem⟩
      intro other inside
      apply joins other
      rw [← join_gather]
      exact Chain.mem_operators_join.mpr (.inr ⟨part, partMem, inside⟩)

/-! ## Bands -/

/-- Operators that join or part lines bind loosest, and those without space around
them tightest. -/
theorem band_cases (lexicon : Lexicon) {token : Token} (between : token.IsInfix) :
    token.isLineLevel = true ∧ (ofToken lexicon token).left.priority.band ≤ 22 ∨
      token.isLineLevel = false ∧ token.isSpaced = true ∧
        100 ≤ (ofToken lexicon token).left.priority.band ∧
        (ofToken lexicon token).left.priority.band ≤ 120 ∨
      token.isLineLevel = false ∧ token.isSpaced = false ∧
        300 ≤ (ofToken lexicon token).left.priority.band := by
  have line := between.lexeme_eq
  have lexemes := between.lexeme_mem
  have band := lineBreakPriority_band token
  simp only [List.mem_cons, List.not_mem_nil, or_false] at lexemes band
  rcases lexemes with lexeme_eq | lexeme_eq | lexeme_eq | lexeme_eq
  · cases line_eq : token.lineOperator with
    | true =>
        simp [ofToken, faces, lexeme_eq, line_eq, between.kind_eq, Kind.fixity?, lineFaces,
          Token.isLineLevel, Priority.byWidth, Priority.wideLine]
    | false =>
        cases spaced : token.isSpaced <;>
          simp [ofToken, faces, lexeme_eq, line_eq, between.kind_eq, Kind.fixity?, inlineFaces,
            Token.isLineLevel, Token.isLineBreak, spaced, Priority.spacedOperator,
            Priority.operator]
  · have level : token.isLineLevel = false := by
      simp_all [Token.isLineLevel, Token.isLineBreak]
    simp only [ofToken, faces, lexeme_eq, level, separatorPriority]
    cases spaced : token.isSpaced <;> split <;> simp_all
  · have level : token.isLineLevel = true := by
      simp [Token.isLineLevel, Token.isLineBreak, lexeme_eq]
    left
    simp only [ofToken, faces, lexeme_eq, level, true_and]
    omega
  · by_cases broken : token.gapHeight > 0
    · have level : token.isLineLevel = true := by
        simp [Token.isLineLevel, Token.isLineBreak, lexeme_eq, broken]
      left
      simp only [ofToken, faces, lexeme_eq, level, juxtapositionPriority, broken, if_true, true_and]
      omega
    · have level : token.isLineLevel = false := by
        simp_all [Token.isLineLevel, Token.isLineBreak]
      simp only [ofToken, faces, lexeme_eq, level, juxtapositionPriority, broken, if_false]
      cases spaced : token.isSpaced <;>
        simp [Priority.spacedJuxtaposition, Priority.juxtaposition]

/-! ## Grouping -/

/-- Where operators join, nothing is refused. -/
theorem lenientTrees_related :
    GrammarRelated (@Eq α) (fun op op' => op = op' ∧ op.Joins) Eq Eq
      (lenientTrees order) treeGrammar := by
  refine { GrammarRelated.self treeGrammar Joins with mayStart := ?_, mayEnd := ?_ }
  · rintro op _ ⟨rfl, joins⟩
    have allowed : op.mayStart = .ok () := by rw [mayStart, joins.merge_eq]
    change Except.Related _ _ _ op.mayStart
    rw [allowed]
    exact .ok rfl
  · rintro op _ ⟨rfl, joins⟩
    have allowed : op.mayEnd = .ok () := by rw [mayEnd, joins.right_eq, joins.merge_eq]
    change Except.Related _ _ _ op.mayEnd
    rw [allowed]
    exact .ok rfl

/-- Where operators join, grouping builds the split of a chain. -/
theorem group_eq_splitTree {chain : Chain α Operator} (joins : ∀ op ∈ chain.operators, op.Joins) :
    treeGrammar.group (chain.elements.map .ok) = .ok (splitTree chain) := by
  have lenient := (splitTree_ordered joins).group_elements
  rw [splitTree_elements] at lenient
  have same : List.Forall₂ (ElementRelated Eq (fun op op' => op = op' ∧ op.Joins))
      chain.elements chain.elements := by
    rw [List.forall₂_same]
    intro element member
    cases element with
    | operand value => exact .operand rfl
    | operator op => exact .operator ⟨rfl, joins op (Chain.mem_elements_operator_iff.mp member)⟩
  have grouped := lenientTrees_related.group same
  rw [lenient] at grouped
  obtain ⟨tree, group_eq, rfl⟩ := grouped.exists_of_ok
  exact group_eq

/-- Every sequence of operands with infix operators between them is a chain, and so it is grouped
into the split of that chain. -/
theorem group_of_alternates (lexicon : Lexicon) {elements : List (Element α Operator)}
    (alternates : Alternates elements)
    (between : ∀ op, .operator op ∈ elements →
      ∃ token : Token, token.IsInfix ∧ ofToken lexicon token = op) :
    ∃ chain : Chain α Operator, chain.elements = elements ∧
      treeGrammar.group (elements.map .ok) = .ok (splitTree chain) := by
  obtain ⟨chain, rfl⟩ := Chain.alternates_iff_exists_chain.mp alternates
  refine ⟨chain, rfl, group_eq_splitTree ?_⟩
  intro op member
  obtain ⟨token, infixed, rfl⟩ := between op (Chain.mem_elements_operator_iff.mpr member)
  exact ofToken_joins lexicon infixed

/-- An operator within a line has none between lines inside its group, and one without
space around it has none with space. -/
theorem level_of_under {lexicon : Lexicon} {chain : Chain α Token} {outer inner : Operator}
    (between : ∀ token ∈ chain.operators, token.IsInfix)
    (under : (splitTree (chain.mapOperators (ofToken lexicon))).Under outer inner)
    (inline : outer.token.isLineLevel = false) :
    inner.token.isLineLevel = false ∧
      (outer.token.isSpaced = false → inner.token.isSpaced = false) := by
  have notLooser := not_lt_of_under under
  obtain ⟨outerMem, innerMem⟩ := under.mem_elements
  rw [mem_elements_splitTree_iff, Chain.operators_mapOperators, List.mem_map] at outerMem innerMem
  obtain ⟨outerToken, outerMem, rfl⟩ := outerMem
  obtain ⟨innerToken, innerMem, rfl⟩ := innerMem
  have outerBand := band_cases lexicon (between outerToken outerMem)
  have innerBand := band_cases lexicon (between innerToken innerMem)
  rw [Priority.lt_def] at notLooser
  change outerToken.isLineLevel = false at inline
  change innerToken.isLineLevel = false ∧
    (outerToken.isSpaced = false → innerToken.isSpaced = false)
  grind

/-- Grouping a chain of infix operators builds the split of the chain, in which lines
are not joined or parted inside other groups, and no operator with space around it
lies inside a group of one without. -/
theorem group_infix (lexicon : Lexicon) (chain : Chain α Token)
    (between : ∀ token ∈ chain.operators, token.IsInfix) :
    treeGrammar.group ((chain.mapOperators (ofToken lexicon)).elements.map .ok) =
        .ok (splitTree (chain.mapOperators (ofToken lexicon))) ∧
      ∀ outer inner : Operator,
        (splitTree (chain.mapOperators (ofToken lexicon))).Under outer inner →
        outer.token.isLineLevel = false →
          inner.token.isLineLevel = false ∧
            (outer.token.isSpaced = false → inner.token.isSpaced = false) := by
  refine ⟨group_eq_splitTree ?_, fun outer inner => level_of_under between⟩
  intro op member
  rw [Chain.operators_mapOperators] at member
  obtain ⟨token, tokenMem, rfl⟩ := List.mem_map.mp member
  exact ofToken_joins lexicon (between token tokenMem)

/-- An infix operator of the text with the gap on either side. -/
def infixToken (text gap : String) : Token :=
  Token.read 0 (.operator .infixOp) .operator text gap gap (.point 0)

/-- Operators with space around them, of two texts, and one without. -/
def mixedChain : Chain String Token :=
  ⟨"a", [(infixToken "+" " ", "b"), (infixToken "*" "", "c"), (infixToken "-" " ", "d")]⟩

/-- The first of the spaced operators has the rest of the chain on its right. -/
theorem group_infix_mixed :
    (∀ token ∈ mixedChain.operators, token.IsInfix) ∧
      treeGrammar.group ((mixedChain.mapOperators (ofToken .standard)).elements.map .ok) =
        .ok (.group [ofToken .standard (infixToken "+" " ")]
          [.leaf "a", .group [ofToken .standard (infixToken "-" " ")]
            [.group [ofToken .standard (infixToken "*" "")] [.leaf "b", .leaf "c"],
              .leaf "d"]]) := by
  have between : ∀ token ∈ mixedChain.operators, token.IsInfix := by
    simp only [mixedChain, Chain.operators, List.map_cons, List.map_nil, List.forall_mem_cons,
      List.not_mem_nil, false_implies, implies_true, and_true]
    exact ⟨⟨rfl, by decide, by decide⟩, ⟨rfl, by decide, by decide⟩, ⟨rfl, by decide, by decide⟩⟩
  have split := group_infix .standard mixedChain between
  refine ⟨between, split.1.trans (congrArg Except.ok ?_)⟩
  cbv

end Operator

end OperatorMarkup
