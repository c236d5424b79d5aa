import OperatorMarkup.Proofs.Grouping.Tree

/-!
# Chains

A chain is a sequence of operands with an operator between each two of them.  It
can be cut at some of its operators into a chain of shorter ones, and joined again;
the parts at one end of such a chain can also be joined alone, up to a run of
operators of one kind.
-/

namespace OperatorMarkup

namespace Grouping

/-- An operand, and operators behind it that each have an operand behind them. -/
structure Chain (α ο : Type) where
  /-- The first operand. -/
  first : α
  /-- The operators with the operands behind them. -/
  rest : List (ο × α)
  deriving DecidableEq, Repr

namespace Chain

variable {α ο ρ : Type}

/-- The operators in order. -/
def operators (chain : Chain α ο) : List ο :=
  chain.rest.map Prod.fst

/-- The operands in order. -/
def operands (chain : Chain α ο) : List α :=
  chain.first :: chain.rest.map Prod.snd

/-- The sequence that a chain is. -/
def elements (chain : Chain α ο) : List (Element α ο) :=
  .operand chain.first :: chain.rest.flatMap fun link => [.operator link.1, .operand link.2]

/-- The same chain of other operators. -/
def mapOperators (f : ο → ρ) (chain : Chain α ο) : Chain α ρ :=
  ⟨chain.first, chain.rest.map fun link => (f link.1, link.2)⟩

/-- A chain with an operand and an operator in front of it. -/
def cons (operand : α) (op : ο) (chain : Chain α ο) : Chain α ο :=
  ⟨operand, (op, chain.first) :: chain.rest⟩

/-- Two chains with an operator between them. -/
def append (chain : Chain α ο) (op : ο) (behind : Chain α ο) : Chain α ο :=
  ⟨chain.first, chain.rest ++ (op, behind.first) :: behind.rest⟩

/-- Chains with operators between them as one chain. -/
def joinFrom (first : Chain α ο) : List (ο × Chain α ο) → Chain α ο
  | [] => first
  | (op, next) :: links => first.append op (joinFrom next links)

/-- A chain of chains as one chain. -/
def join (parts : Chain (Chain α ο) ο) : Chain α ο :=
  joinFrom parts.first parts.rest

/-- Cut a chain at operators of a kind. -/
def cutFrom (here : ο → Bool) (first : α) : List (ο × α) → Chain (Chain α ο) ο
  | [] => ⟨⟨first, []⟩, []⟩
  | (op, next) :: links =>
      let parts := cutFrom here next links
      if here op then parts.cons ⟨first, []⟩ op
      else ⟨parts.first.cons first op, parts.rest⟩

/-- Cut a chain at all operators of a kind. -/
def cut (here : ο → Bool) (chain : Chain α ο) : Chain (Chain α ο) ο :=
  cutFrom here chain.first chain.rest

/-- Keep the longest run of operators of a kind at the front, and join all that
lies behind it. -/
def frontRun (here : ο → Bool) (first : Chain α ο) :
    List (ο × Chain α ο) → Chain (Chain α ο) ο
  | [] => ⟨first, []⟩
  | (op, next) :: links =>
      if here op then (frontRun here next links).cons first op
      else ⟨joinFrom first ((op, next) :: links), []⟩

/-- Keep the longest run at the end of operators that are alike, and join all that
lies before it. -/
def endRun (alike : List ο → Bool) (first : Chain α ο) :
    List (ο × Chain α ο) → Chain (Chain α ο) ο
  | [] => ⟨first, []⟩
  | (op, next) :: links =>
      if alike (op :: links.map Prod.fst) then ⟨first, (op, next) :: links⟩
      else endRun alike (first.append op next) links

variable {chain behind part : Chain α ο} {parts : Chain (Chain α ο) ο} {op : ο}
  {links : List (ο × Chain α ο)}

/-- A chain is one operand, or an operand and an operator in front of a chain. -/
@[induction_eliminator]
theorem induction {motive : Chain α ο → Prop} (single : ∀ operand, motive ⟨operand, []⟩)
    (cons : ∀ operand op chain, motive chain → motive (chain.cons operand op))
    (chain : Chain α ο) : motive chain := by
  obtain ⟨first, links⟩ := chain
  induction links generalizing first with
  | nil => exact single first
  | cons link links ih => exact cons first link.1 ⟨link.2, links⟩ (ih link.2)

@[simp]
theorem operators_cons (operand : α) (op : ο) (chain : Chain α ο) :
    (chain.cons operand op).operators = op :: chain.operators :=
  rfl

@[simp]
theorem operands_cons (operand : α) (op : ο) (chain : Chain α ο) :
    (chain.cons operand op).operands = operand :: chain.operands :=
  rfl

@[simp]
theorem operators_single (operand : α) : (⟨operand, []⟩ : Chain α ο).operators = [] :=
  rfl

@[simp]
theorem operands_single (operand : α) : (⟨operand, []⟩ : Chain α ο).operands = [operand] :=
  rfl

@[simp]
theorem operators_mapOperators (f : ο → ρ) (chain : Chain α ο) :
    (chain.mapOperators f).operators = chain.operators.map f := by
  simp [operators, mapOperators]

theorem elements_cons (operand : α) (op : ο) (chain : Chain α ο) :
    (chain.cons operand op).elements = .operand operand :: .operator op :: chain.elements :=
  rfl

theorem mem_elements_operator_iff {chain : Chain α ο} {op : ο} :
    .operator op ∈ chain.elements ↔ op ∈ chain.operators := by
  simp [elements, operators]

/-- The sequences that alternate are those of chains. -/
theorem alternates_iff_exists_chain {elements : List (Element α ο)} :
    Alternates elements ↔ ∃ chain : Chain α ο, chain.elements = elements := by
  constructor
  · intro alternates
    induction elements using Alternates.induct with
    | case1 operand => exact ⟨⟨operand, []⟩, rfl⟩
    | case2 operand op rest ih =>
        obtain ⟨chain, rfl⟩ := ih alternates
        exact ⟨chain.cons operand op, elements_cons operand op chain⟩
    | case3 elements notSingle notPair =>
        rw [Alternates.eq_3 _ notSingle notPair] at alternates
        exact alternates.elim
  · rintro ⟨chain, rfl⟩
    induction chain with
    | single operand => trivial
    | cons operand op chain ih => exact ih

/-- No operator lies behind the last operand. -/
theorem zip_operators_concat (first : α) (run : List (ο × α)) (op : ο) (last : α) :
    (⟨first, run ++ [(op, last)]⟩ : Chain α ο).operands.zip
        (⟨first, run ++ [(op, last)]⟩ : Chain α ο).operators =
      (first :: run.map Prod.snd).zip (run.map Prod.fst ++ [op]) := by
  induction run generalizing first with
  | nil => rfl
  | cons link run ih => exact congrArg ((first, link.1) :: ·) (ih link.2)

/-! ## Joined chains -/

@[simp]
theorem operators_append (chain : Chain α ο) (op : ο) (behind : Chain α ο) :
    (chain.append op behind).operators = chain.operators ++ op :: behind.operators := by
  simp [operators, append]

theorem elements_append (chain : Chain α ο) (op : ο) (behind : Chain α ο) :
    (chain.append op behind).elements =
      chain.elements ++ .operator op :: behind.elements := by
  simp [elements, append]

theorem append_assoc (chain : Chain α ο) (op : ο) (middle : Chain α ο) (next : ο)
    (behind : Chain α ο) :
    (chain.append op middle).append next behind =
      chain.append op (middle.append next behind) := by
  simp [append]

theorem joinFrom_append (chain : Chain α ο) (op : ο) (first : Chain α ο)
    (links : List (ο × Chain α ο)) :
    joinFrom (chain.append op first) links = chain.append op (joinFrom first links) := by
  cases links with
  | nil => rfl
  | cons link links => exact append_assoc chain op first link.1 _

theorem join_cons (first : Chain α ο) (op : ο) (parts : Chain (Chain α ο) ο) :
    (parts.cons first op).join = first.append op parts.join :=
  rfl

@[simp]
theorem join_single (chain : Chain α ο) : join ⟨chain, []⟩ = chain :=
  rfl

theorem mem_operators_join {op : ο} :
    op ∈ parts.join.operators ↔
      op ∈ parts.operators ∨ ∃ part ∈ parts.operands, op ∈ part.operators := by
  induction parts with
  | single part => simp [join_single]
  | cons part cut parts ih =>
      rw [join_cons, operators_append, List.mem_append, List.mem_cons, ih]
      simp only [operators_cons, operands_cons, List.mem_cons, exists_eq_or_imp]
      grind

theorem length_join (first : Chain α ο) (op : ο) (parts : Chain (Chain α ο) ο) :
    (parts.cons first op).join.rest.length =
      first.rest.length + parts.join.rest.length + 1 := by
  simp [join_cons, append, Nat.add_assoc]

theorem length_le_length_join (parts : Chain (Chain α ο) ο) :
    parts.rest.length ≤ parts.join.rest.length := by
  induction parts with
  | single part => exact Nat.zero_le _
  | cons first op parts ih =>
      rw [length_join]
      simp only [cons, List.length_cons]
      omega

/-- The parts of a chain and its cuts fit into it. -/
theorem length_add_le_of_mem_operands (member : part ∈ parts.operands) :
    part.rest.length + parts.rest.length ≤ parts.join.rest.length := by
  induction parts with
  | single only =>
      rw [List.mem_singleton.mp member]
      exact Nat.le_refl _
  | cons first op parts ih =>
      have cuts := length_le_length_join parts
      rw [length_join]
      rcases List.mem_cons.mp member with rfl | later
      · simp only [cons, List.length_cons]
        omega
      · have next := ih later
        simp only [cons, List.length_cons]
        omega

/-! ## Cuts -/

theorem cut_cons_here {here : ο → Bool} (first : α) (cutHere : here op = true) :
    (chain.cons first op).cut here = (chain.cut here).cons ⟨first, []⟩ op := by
  simp [cut, cutFrom, cons, cutHere]

theorem cut_cons_not {here : ο → Bool} (first : α) (keptHere : here op = false) :
    (chain.cons first op).cut here =
      ⟨(chain.cut here).first.cons first op, (chain.cut here).rest⟩ := by
  simp [cut, cutFrom, cons, keptHere]

theorem joinFrom_cons (operand : α) (op : ο) (first : Chain α ο)
    (links : List (ο × Chain α ο)) :
    joinFrom (first.cons operand op) links = (joinFrom first links).cons operand op := by
  cases links <;> rfl

theorem join_cut (here : ο → Bool) (chain : Chain α ο) : (chain.cut here).join = chain := by
  induction chain with
  | single operand => rfl
  | cons operand op chain ih =>
      cases here_eq : here op with
      | true =>
          rw [cut_cons_here operand here_eq, join_cons, ih]
          rfl
      | false =>
          rw [cut_cons_not operand here_eq, join, joinFrom_cons]
          exact congrArg (cons operand op) ih

/-- A chain is cut at operators of the kind alone. -/
theorem here_of_mem_operators_cut {here : ο → Bool} :
    ∀ op ∈ (chain.cut here).operators, here op = true := by
  induction chain with
  | single operand => simp [cut, cutFrom]
  | cons operand op chain ih =>
      cases here_eq : here op with
      | true =>
          rw [cut_cons_here operand here_eq, operators_cons, List.forall_mem_cons]
          exact ⟨here_eq, ih⟩
      | false =>
          rw [cut_cons_not operand here_eq]
          exact ih

/-- A chain is cut at all operators of the kind. -/
theorem not_here_of_mem_operands_cut {here : ο → Bool} :
    ∀ part ∈ (chain.cut here).operands, ∀ op ∈ part.operators, here op = false := by
  induction chain with
  | single operand => simp [cut, cutFrom]
  | cons operand op chain ih =>
      cases here_eq : here op with
      | true =>
          rw [cut_cons_here operand here_eq, operands_cons, List.forall_mem_cons]
          exact ⟨by simp, ih⟩
      | false =>
          rw [cut_cons_not operand here_eq]
          have parts := List.forall_mem_cons.mp ih
          intro part member
          rcases List.mem_cons.mp member with rfl | later
          · exact List.forall_mem_cons.mpr ⟨here_eq, parts.1⟩
          · exact parts.2 part later

theorem cut_of_forall_not {here : ο → Bool} (none : ∀ op ∈ chain.operators, here op = false) :
    chain.cut here = ⟨chain, []⟩ := by
  induction chain with
  | single operand => rfl
  | cons operand op chain ih =>
      rw [operators_cons, List.forall_mem_cons] at none
      rw [cut_cons_not operand none.1, ih none.2]

theorem cut_append {here : ο → Bool} (none : ∀ op ∈ chain.operators, here op = false)
    (cutHere : here op = true) :
    (chain.append op behind).cut here = (behind.cut here).cons chain op := by
  induction chain with
  | single operand => exact cut_cons_here operand cutHere
  | cons operand inner chain ih =>
      rw [operators_cons, List.forall_mem_cons] at none
      change ((chain.append op behind).cons operand inner).cut here = _
      rw [cut_cons_not operand none.1, ih none.2]
      rfl

/-- Joined parts are cut where they were joined. -/
theorem cut_join {here : ο → Bool} (cuts : ∀ op ∈ parts.operators, here op = true)
    (kept : ∀ part ∈ parts.operands, ∀ op ∈ part.operators, here op = false) :
    parts.join.cut here = parts := by
  induction parts with
  | single part => exact cut_of_forall_not (kept part List.mem_cons_self)
  | cons part op parts ih =>
      rw [operators_cons, List.forall_mem_cons] at cuts
      rw [operands_cons, List.forall_mem_cons] at kept
      rw [join_cons, cut_append kept.1 cuts.1, ih cuts.2 kept.2]

/-! ## Runs -/

/-- Parts at the end can be joined first. -/
theorem joinFrom_concat (first : Chain α ο) (run : List (ο × Chain α ο)) (op : ο)
    (part : Chain α ο) (behind : List (ο × Chain α ο)) :
    joinFrom first (run ++ [(op, joinFrom part behind)]) =
      joinFrom first (run ++ (op, part) :: behind) := by
  induction run generalizing first with
  | nil => rfl
  | cons link run ih => exact congrArg (first.append link.1) (ih link.2)

/-- Parts at the front can be joined first. -/
theorem joinFrom_joinFrom (first : Chain α ο) (front behind : List (ο × Chain α ο)) :
    joinFrom (joinFrom first front) behind = joinFrom first (front ++ behind) := by
  induction front generalizing first with
  | nil => rfl
  | cons link front ih =>
      change joinFrom (first.append link.1 (joinFrom link.2 front)) behind = _
      rw [joinFrom_append, ih link.2]
      rfl

/-- The last operand of the run at the front is all that lies behind the run. -/
theorem exists_frontRun (here : ο → Bool) (op : ο) (first next : Chain α ο)
    (here_eq : here op = true) (links : List (ο × Chain α ο)) :
    ∃ front last part behind, (op, next) :: links = front ++ (last, part) :: behind ∧
      frontRun here first ((op, next) :: links) =
        ⟨first, front ++ [(last, joinFrom part behind)]⟩ ∧
      (∀ other ∈ front.map Prod.fst ++ [last], here other = true) ∧
      ∀ link ∈ behind.head?, here link.1 = false := by
  induction links generalizing first op next with
  | nil =>
      refine ⟨[], op, next, [], rfl, ?_, by simpa using here_eq, by simp⟩
      simp [frontRun, here_eq, joinFrom, cons]
  | cons link links ih =>
      obtain ⟨second, third⟩ := link
      cases second_eq : here second with
      | false =>
          refine ⟨[], op, next, (second, third) :: links, rfl, ?_, by simpa using here_eq, ?_⟩
          · simp [frontRun, here_eq, second_eq, cons]
          · simpa using second_eq
      | true =>
          obtain ⟨front, last, part, behind, links_eq, run_eq, allHere, stops⟩ :=
            ih second next third second_eq
          refine ⟨(op, next) :: front, last, part, behind, ?_, ?_, ?_, stops⟩
          · rw [links_eq, List.cons_append]
          · rw [frontRun, if_pos here_eq, run_eq]
            rfl
          · exact List.forall_mem_cons.mpr ⟨here_eq, allHere⟩

/-- The first operand of the run at the end is all that lies before the run. -/
theorem exists_endRun (alike : List ο → Bool) (single : ∀ op, alike [op] = true)
    (first : Chain α ο) (nonempty : links ≠ []) :
    ∃ front op part behind, links = front ++ (op, part) :: behind ∧
      endRun alike first links = ⟨joinFrom first front, (op, part) :: behind⟩ ∧
      alike (op :: behind.map Prod.fst) = true ∧
      ∀ link ∈ front.getLast?, alike (link.1 :: op :: behind.map Prod.fst) = false := by
  induction links generalizing first with
  | nil => exact absurd rfl nonempty
  | cons link links ih =>
      obtain ⟨second, third⟩ := link
      rw [endRun]
      split
      · next whole => exact ⟨[], second, third, links, rfl, rfl, whole, by simp⟩
      · next broken =>
          have more : links ≠ [] := by
            rintro rfl
            exact broken (single second)
          obtain ⟨front, op, part, behind, rfl, run_eq, whole, stops⟩ :=
            ih (first.append second third) more
          refine ⟨(second, third) :: front, op, part, behind, rfl, ?_, whole, ?_⟩
          · rw [run_eq, joinFrom_append]
            rfl
          · cases front with
            | nil => simpa using broken
            | cons link front => simpa using stops

end Chain

end Grouping

end OperatorMarkup
