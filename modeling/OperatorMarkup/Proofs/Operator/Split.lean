import Mathlib.Data.List.Basic
import OperatorMarkup.Operator.Basic
import OperatorMarkup.Proofs.Grouping.Chain

/-!
# Splitting a chain of operators

The loosest operators of a chain cut it into parts, which are split in turn.  Where
these operators go by several texts, those at one end that go by one text form the
group, and the rest is a chain of its own.
-/

namespace OperatorMarkup

open Grouping Grouping.Tree

namespace Operator

/-! ## The split -/

/-- The loosest priority of some operators. -/
def loosest? : List Operator → Option Priority
  | [] => none
  | op :: ops =>
      match loosest? ops with
      | none => some op.left.priority
      | some loosest => some (if op.left.priority < loosest then op.left.priority else loosest)

/-- Operators that all go by one text. -/
def OneText (ops : List Operator) : Prop :=
  ∀ first ∈ ops, ∀ second ∈ ops, first.left.text = second.left.text

instance (ops : List Operator) : Decidable (OneText ops) :=
  inferInstanceAs (Decidable (∀ first ∈ ops, ∀ second ∈ ops, _ = _))

variable {α : Type}

/-- The parts that form one group, of parts between operators of one priority.  All
do where the operators go by one text.  Else those around the first operators that
do, where ties are for a group on the right, or those around the last ones. -/
def gather (parts : Chain (Chain α Operator) Operator) : Chain (Chain α Operator) Operator :=
  match parts.rest with
  | [] => parts
  | (op, _) :: _ =>
      if OneText parts.operators then parts
      else if op.left.tie = .right then
        Chain.frontRun (fun other => decide (other.left.text = op.left.text)) parts.first
          parts.rest
      else Chain.endRun (fun ops => decide (OneText ops)) parts.first parts.rest

/-- The parts of the outermost group of a chain. -/
def divide (chain : Chain α Operator) : Chain (Chain α Operator) Operator :=
  match loosest? chain.operators with
  | none => ⟨chain, []⟩
  | some loosest => gather (chain.cut fun op => decide (op.left.priority = loosest))

theorem loosest?_spec {ops : List Operator} (nonempty : ops ≠ []) :
    ∃ loosest, loosest? ops = some loosest ∧ (∃ op ∈ ops, op.left.priority = loosest) ∧
      ∀ op ∈ ops, ¬ op.left.priority < loosest := by
  induction ops with
  | nil => exact absurd rfl nonempty
  | cons op ops ih =>
      by_cases more : ops = []
      · subst more
        exact ⟨op.left.priority, rfl, ⟨op, List.mem_cons_self, rfl⟩,
          by simpa using Priority.lt_irrefl _⟩
      · obtain ⟨loosest, loosest_eq, ⟨witness, member, priority_eq⟩, least⟩ := ih more
        simp only [loosest?, loosest_eq]
        by_cases looser : op.left.priority < loosest
        · refine ⟨op.left.priority, by rw [if_pos looser], ⟨op, List.mem_cons_self, rfl⟩, ?_⟩
          rw [List.forall_mem_cons]
          refine ⟨Priority.lt_irrefl _, fun other otherMem less => least other otherMem ?_⟩
          rw [Priority.lt_def] at less looser ⊢
          omega
        · exact ⟨loosest, by rw [if_neg looser],
            ⟨witness, List.mem_cons_of_mem _ member, priority_eq⟩,
            List.forall_mem_cons.mpr ⟨looser, least⟩⟩

/-- Parts that form one group: those of a run at the front, with all that lies
behind it joined to one part, or those of a run at the end. -/
inductive Gathered (tie : Tie) (first : Chain α Operator) :
    List (Operator × Chain α Operator) → Chain (Chain α Operator) Operator → Prop
  | front (run : List (Operator × Chain α Operator)) (last : Operator) (part : Chain α Operator)
      (behind : List (Operator × Chain α Operator)) (tie_eq : tie = .right)
      (oneText : OneText (run.map Prod.fst ++ [last]))
      (stops : ∀ link ∈ behind.head?, link.1.left.text ≠ last.left.text) :
      Gathered tie first (run ++ (last, part) :: behind)
        ⟨first, run ++ [(last, Chain.joinFrom part behind)]⟩
  | back (front : List (Operator × Chain α Operator)) (op : Operator) (part : Chain α Operator)
      (run : List (Operator × Chain α Operator)) (oneText : OneText (op :: run.map Prod.fst))
      (stops : ∀ link ∈ front.getLast?, tie ≠ .right ∧ link.1.left.text ≠ op.left.text) :
      Gathered tie first (front ++ (op, part) :: run)
        ⟨Chain.joinFrom first front, (op, part) :: run⟩

theorem oneText_singleton (op : Operator) : OneText [op] := by
  simp [OneText]

/-- Another text in front of operators of one text is the text of none of them. -/
theorem text_ne_of_not_oneText {op next : Operator} {ops : List Operator}
    (oneText : OneText (next :: ops)) (broken : ¬ OneText (op :: next :: ops)) :
    op.left.text ≠ next.left.text := by
  intro text_eq
  apply broken
  have all : ∀ other ∈ op :: next :: ops, other.left.text = next.left.text :=
    List.forall_mem_cons.mpr
      ⟨text_eq, fun other member => oneText other member _ List.mem_cons_self⟩
  intro first firstMem second secondMem
  rw [all first firstMem, all second secondMem]

theorem gather_spec (parts : Chain (Chain α Operator) Operator) (nonempty : parts.rest ≠ []) :
    ∃ op ∈ parts.operators, Gathered op.left.tie parts.first parts.rest (gather parts) := by
  obtain ⟨first, links⟩ := parts
  obtain ⟨⟨op, next⟩, links, rfl⟩ := List.exists_cons_of_ne_nil nonempty
  refine ⟨op, List.mem_cons_self, ?_⟩
  simp only [gather]
  split
  · next oneText => exact .back [] op next links oneText (by simp)
  · split
    · next tie_eq =>
        obtain ⟨run, last, part, behind, links_eq, run_eq, same, stops⟩ :=
          Chain.exists_frontRun (fun other => decide (other.left.text = op.left.text)) op first
            next (by simp) links
        simp only [decide_eq_true_eq, decide_eq_false_iff_not] at same stops
        rw [run_eq, links_eq]
        refine .front run last part behind tie_eq ?_ ?_
        · intro first firstMem second secondMem
          rw [same first firstMem, same second secondMem]
        · rw [same last (by simp)]
          exact stops
    · next tie_ne =>
        obtain ⟨front, last, part, run, links_eq, run_eq, oneText, stops⟩ :=
          Chain.exists_endRun (fun ops => decide (OneText ops)) (by simp [oneText_singleton]) first
            nonempty
        simp only [decide_eq_true_eq, decide_eq_false_iff_not] at links_eq oneText stops
        rw [run_eq, links_eq]
        refine .back front last part run oneText ?_
        intro link member
        exact ⟨tie_ne, text_ne_of_not_oneText oneText (stops link member)⟩

theorem gather_nil (part : Chain α Operator) : gather ⟨part, []⟩ = ⟨part, []⟩ :=
  rfl

theorem join_gather (parts : Chain (Chain α Operator) Operator) :
    (gather parts).join = parts.join := by
  obtain ⟨first, links⟩ := parts
  by_cases nonempty : links = []
  · rw [nonempty, gather_nil]
  · obtain ⟨op, _, gathered⟩ := gather_spec ⟨first, links⟩ nonempty
    generalize gather ⟨first, links⟩ = parts at gathered
    cases gathered with
    | front run last part behind => exact Chain.joinFrom_concat first run last part behind
    | back front op part run => exact Chain.joinFrom_joinFrom first front _

theorem gather_rest_ne_nil {parts : Chain (Chain α Operator) Operator}
    (nonempty : parts.rest ≠ []) : (gather parts).rest ≠ [] := by
  obtain ⟨op, _, gathered⟩ := gather_spec parts nonempty
  generalize gather parts = gatheredParts at gathered
  generalize parts.rest = links at gathered
  cases gathered <;> simp

theorem join_divide (chain : Chain α Operator) : (divide chain).join = chain := by
  rw [divide]
  split
  · rfl
  · rw [join_gather, Chain.join_cut]

/-- Parts with the loosest operators between them. -/
structure Parted (loosest : Priority) (parts : Chain (Chain α Operator) Operator) : Prop where
  cuts : ∀ op ∈ parts.operators, op.left.priority = loosest
  kept : ∀ part ∈ parts.operands, ∀ op ∈ part.operators, loosest < op.left.priority

namespace Parted

variable {loosest : Priority} {parts : Chain (Chain α Operator) Operator}

/-- No operator binds looser. -/
theorem not_lt (parted : Parted loosest parts) :
    ∀ op ∈ parts.join.operators, ¬ op.left.priority < loosest := by
  intro op member
  rcases Chain.mem_operators_join.mp member with isCut | ⟨part, partMem, inside⟩
  · rw [parted.cuts op isCut]
    exact Priority.lt_irrefl _
  · exact Priority.lt_asymm (parted.kept part partMem op inside)

theorem loosest?_eq (parted : Parted loosest parts) (nonempty : parts.rest ≠ []) :
    loosest? parts.join.operators = some loosest := by
  obtain ⟨op, isCut⟩ := List.exists_mem_of_ne_nil parts.operators
    (by simpa [Chain.operators] using nonempty)
  have member : op ∈ parts.join.operators := Chain.mem_operators_join.mpr (.inl isCut)
  obtain ⟨found, found_eq, ⟨witness, witnessMem, rfl⟩, least⟩ :=
    loosest?_spec (List.ne_nil_of_mem member)
  have notLooser := least op member
  rw [parted.cuts op isCut] at notLooser
  rcases Priority.lt_trichotomy loosest witness.left.priority with less | equal | more
  · exact absurd less notLooser
  · rw [found_eq, equal]
  · exact absurd more (parted.not_lt witness witnessMem)

/-- Joined again, the parts are cut where they were. -/
theorem cut_eq (parted : Parted loosest parts) :
    parts.join.cut (fun op => decide (op.left.priority = loosest)) = parts := by
  apply Chain.cut_join
  · simpa using parted.cuts
  · intro part partMem op inside
    rw [decide_eq_false_iff_not]
    rintro rfl
    exact Priority.lt_irrefl _ (parted.kept part partMem op inside)

theorem divide_join (parted : Parted loosest parts) (nonempty : parts.rest ≠ []) :
    divide parts.join = gather parts := by
  rw [divide, parted.loosest?_eq nonempty]
  exact congrArg gather parted.cut_eq

end Parted

/-- A chain with operators is parted at the loosest of them. -/
theorem exists_parted {chain : Chain α Operator} (nonempty : chain.rest ≠ []) :
    ∃ loosest parts, Parted loosest parts ∧ parts.rest ≠ [] ∧ parts.join = chain := by
  have operators_ne : chain.operators ≠ [] := by simpa [Chain.operators] using nonempty
  obtain ⟨loosest, -, ⟨op, member, priority_eq⟩, least⟩ := loosest?_spec operators_ne
  have join_eq := Chain.join_cut (fun op => decide (op.left.priority = loosest)) chain
  refine ⟨loosest, _, ⟨?_, ?_⟩, ?_, join_eq⟩
  · intro op isCut
    simpa using Chain.here_of_mem_operators_cut op isCut
  · intro part partMem op inside
    have kept := Chain.not_here_of_mem_operands_cut part partMem op inside
    rw [decide_eq_false_iff_not] at kept
    have within : op ∈ chain.operators := by
      rw [← join_eq]
      exact Chain.mem_operators_join.mpr (.inr ⟨part, partMem, inside⟩)
    rcases Priority.lt_trichotomy loosest op.left.priority with less | equal | more
    · exact less
    · exact absurd equal.symm kept
    · exact absurd more (least op within)
  · intro uncut
    rw [← join_eq, Chain.mem_operators_join] at member
    rcases member with isCut | ⟨part, partMem, inside⟩
    · simp [Chain.operators, uncut] at isCut
    · have kept := Chain.not_here_of_mem_operands_cut part partMem op inside
      simp [priority_eq] at kept

theorem divide_rest_ne_nil {chain : Chain α Operator} (nonempty : chain.rest ≠ []) :
    (divide chain).rest ≠ [] := by
  obtain ⟨loosest, parts, parted, cuts, rfl⟩ := exists_parted nonempty
  rw [parted.divide_join cuts]
  exact gather_rest_ne_nil cuts

/-- The parts of a chain are shorter than the chain. -/
theorem length_lt_of_mem_divide {chain part : Chain α Operator} (nonempty : chain.rest ≠ [])
    (member : part ∈ (divide chain).operands) : part.rest.length < chain.rest.length := by
  have shorter := Chain.length_add_le_of_mem_operands member
  have cuts := List.length_pos_iff.mpr (divide_rest_ne_nil nonempty)
  rw [join_divide] at shorter
  omega

/-- The tree of a chain: an operand alone, or the group of its parts. -/
def splitTree (chain : Chain α Operator) : Tree α Operator :=
  if _ : chain.rest = [] then .leaf chain.first
  else .group (divide chain).operators
    ((divide chain).operands.attach.map fun part => splitTree part.1)
termination_by chain.rest.length
decreasing_by exact length_lt_of_mem_divide ‹_› part.2

theorem splitTree_of_nil {chain : Chain α Operator} (plain : chain.rest = []) :
    splitTree chain = .leaf chain.first := by
  rw [splitTree, dif_pos plain]

theorem splitTree_of_ne_nil {chain : Chain α Operator} (nonempty : chain.rest ≠ []) :
    splitTree chain = .group (divide chain).operators ((divide chain).operands.map splitTree) := by
  rw [splitTree, dif_neg nonempty, List.attach_map_val]

/-! ## The sequence of the split -/

/-- Trees made of the parts of a chain are made of the chain. -/
theorem elementsOf_parts {parts : Chain (Chain α Operator) Operator}
    {f : Chain α Operator → Tree α Operator}
    (within : ∀ part ∈ parts.operands, (f part).elements = part.elements) :
    elementsOf parts.operators (parts.operands.map f) = parts.join.elements := by
  induction parts with
  | single part => simpa using within
  | cons part op parts ih =>
      rw [Chain.operands_cons, List.forall_mem_cons] at within
      rw [Chain.operators_cons, Chain.operands_cons, List.map_cons, elementsOf_cons, within.1,
        ih within.2, Chain.join_cons, Chain.elements_append]

theorem splitTree_elements (chain : Chain α Operator) :
    (splitTree chain).elements = chain.elements := by
  induction chain using splitTree.induct with
  | case1 chain plain =>
      rw [splitTree_of_nil plain]
      simp [Chain.elements, plain]
  | case2 chain nonempty ih =>
      rw [splitTree_of_ne_nil nonempty, elements_group,
        elementsOf_parts fun part member => ih ⟨part, member⟩, join_divide]

theorem mem_elements_splitTree_iff {chain : Chain α Operator} {op : Operator} :
    .operator op ∈ (splitTree chain).elements ↔ op ∈ chain.operators := by
  rw [splitTree_elements, Chain.mem_elements_operator_iff]

/-! ## What gathering leaves -/

section Gather

variable {loosest : Priority} {parts : Chain (Chain α Operator) Operator}
  {links : List (Operator × Chain α Operator)}

theorem splitTree_join (parted : Parted loosest parts) (nonempty : parts.rest ≠ []) :
    splitTree parts.join =
      .group (gather parts).operators ((gather parts).operands.map splitTree) := by
  have joined : parts.join.rest ≠ [] := by
    have cuts := List.length_pos_iff.mpr nonempty
    exact List.length_pos_iff.mp (Nat.lt_of_lt_of_le cuts (Chain.length_le_length_join parts))
  rw [splitTree_of_ne_nil joined, parted.divide_join nonempty]

/-- A run at the front leaves the first part and the first operator. -/
theorem gather_first (first : Chain α Operator) (nonempty : links ≠ [])
    (tie_eq : ∀ link ∈ links, link.1.left.tie = .right) :
    ∃ rest, gather ⟨first, links⟩ = ⟨first, rest⟩ ∧
      rest.head?.map Prod.fst = links.head?.map Prod.fst := by
  obtain ⟨op, opMem, gathered⟩ := gather_spec ⟨first, links⟩ nonempty
  obtain ⟨link, linkMem, rfl⟩ := List.mem_map.mp opMem
  rw [tie_eq link linkMem] at gathered
  generalize gather ⟨first, links⟩ = parts at gathered
  cases gathered with
  | front run last part behind =>
      refine ⟨_, rfl, ?_⟩
      cases run <;> rfl
  | back front op part run _ stops =>
      rcases List.eq_nil_or_concat front with rfl | ⟨front, link, rfl⟩
      · exact ⟨_, rfl, rfl⟩
      · exact absurd rfl (stops link (by simp)).1

/-- A run at the end leaves the last part and the operator before it. -/
theorem gather_last (first : Chain α Operator) (nonempty : links ≠ [])
    (tie_ne : ∀ link ∈ links, link.1.left.tie ≠ .right) :
    ∃ first' rest, gather ⟨first, links⟩ = ⟨first', rest⟩ ∧ rest.getLast? = links.getLast? := by
  obtain ⟨op, opMem, gathered⟩ := gather_spec ⟨first, links⟩ nonempty
  obtain ⟨link, linkMem, rfl⟩ := List.mem_map.mp opMem
  have notRight := tie_ne link linkMem
  generalize gather ⟨first, links⟩ = parts at gathered
  cases gathered with
  | front run last part behind tie_eq => exact absurd tie_eq notRight
  | back front op part run =>
      refine ⟨_, _, rfl, ?_⟩
      rw [List.append_eq, List.getLast?_append_of_ne_nil _ (List.cons_ne_nil _ _)]

end Gather

/-! ## What lies inside a group -/

/-- The operators of the outermost group are among the loosest of the chain. -/
theorem mem_operators_of_mem_gather {parts : Chain (Chain α Operator) Operator} {op : Operator}
    (member : op ∈ (gather parts).operators) : op ∈ parts.operators := by
  obtain ⟨first, links⟩ := parts
  by_cases nonempty : links = []
  · rwa [nonempty] at member ⊢
  · obtain ⟨chosen, _, gathered⟩ := gather_spec ⟨first, links⟩ nonempty
    generalize gather ⟨first, links⟩ = parts at gathered member
    cases gathered with
    | front run last part behind =>
        simp only [Chain.operators, List.map_append, List.map_cons, List.append_eq] at member ⊢
        simp only [List.mem_append, List.mem_cons] at member ⊢
        grind
    | back front head part run =>
        simp only [Chain.operators, List.map_append, List.map_cons, List.append_eq] at member ⊢
        exact List.mem_append_right _ member

/-- No operator inside a group binds looser than those of the group. -/
theorem not_lt_of_under {chain : Chain α Operator} {outer inner : Operator}
    (under : (splitTree chain).Under outer inner) :
    ¬ inner.left.priority < outer.left.priority := by
  induction chain using splitTree.induct with
  | case1 chain plain =>
      rw [splitTree_of_nil plain] at under
      cases under
  | case2 chain nonempty ih =>
      obtain ⟨loosest, parts, parted, cuts, rfl⟩ := exists_parted nonempty
      rw [parted.divide_join cuts] at ih
      rw [splitTree_join parted cuts] at under
      cases under with
      | here outerMem operandMem innerMem =>
          obtain ⟨part, partMem, rfl⟩ := List.mem_map.mp operandMem
          rw [parted.cuts outer (mem_operators_of_mem_gather outerMem)]
          apply parted.not_lt inner
          rw [← join_gather]
          exact Chain.mem_operators_join.mpr
            (.inr ⟨part, partMem, mem_elements_splitTree_iff.mp innerMem⟩)
      | within operandMem under =>
          obtain ⟨part, partMem, rfl⟩ := List.mem_map.mp operandMem
          exact ih ⟨part, partMem⟩ under

end Operator

end OperatorMarkup
