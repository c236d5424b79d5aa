import OperatorMarkup.Proofs.Tree.Covering
import OperatorMarkup.Proofs.Tree.Terminals

/-!
# Where nodes start and end

Without the whitespace that it owns, a group starts where its first operand does and ends
where its last one does.  So if every operand of the text starts and ends at edges of some
kind, every node of a settled tree does.
-/

namespace OperatorMarkup

open Grouping

variable {lexicon : Lexicon} {source : Source} {edge : Nat → Prop} {start stop : Nat}

namespace Node

/-- What lies inside the whitespace of a place starts and ends at edges. -/
def EndsAt (lexicon : Lexicon) (source : Source) (edge : Nat → Prop) (place : Place) : Prop :=
  ∃ start stop, Frames lexicon source place start stop ∧ edge start ∧ edge stop

/-- What lies inside the whitespace that a leaf is offered starts and ends at edges. -/
def LeafEndsAt (lexicon : Lexicon) (source : Source) (edge : Nat → Prop) (leaf : Node) : Prop :=
  EndsAt lexicon source edge ⟨leaf.span, (leaf.offered source).1, (leaf.offered source).2⟩

/-! ## Operands of the text -/

theorem limit_of_ends {tokens : List Token}
    (each : ∀ token ∈ tokens, edge token.span.start ∧ edge token.span.stop)
    (atEnd : edge source.size) : edge (Extent.limit source.size (stream tokens none)) := by
  cases tokens with
  | nil => exact atEnd
  | cons next tokens => exact (each next List.mem_cons_self).1

/-- A leaf with a text is offered what surrounds the text. -/
theorem offers_of_kind (source : Source) {token : Token}
    (kind_cases : token.kind = .identifier ∨ token.kind = .nullary) :
    (⟨(ofToken source token).span, ((ofToken source token).offered source).1,
      ((ofToken source token).offered source).2⟩ : Place) = tokenPlace source token := by
  rcases kind_cases with kind_eq | kind_eq
  · simp only [ofToken, kind_eq]
    rfl
  · simp only [ofToken, kind_eq]
    rfl

/-- Operands that are widened start and end, inside their whitespace, where tokens did
before. -/
theorem leafEndsAt_of_widens {tokens widened : List Token}
    (widens : Extent.Widens lexicon source start tokens widened)
    (each : ∀ token ∈ tokens, edge token.span.start ∧ edge token.span.stop)
    (atEnd : edge source.size) :
    ∀ token ∈ widened, token.isOperand = true →
      LeafEndsAt lexicon source edge (ofToken source token) := by
  induction widens with
  | nil => simp
  | operator operator _ _ ih =>
      rw [List.forall_mem_cons] at each ⊢
      refine ⟨fun operand => ?_, ih each.2⟩
      rw [operator] at operand
      contradiction
  | @void token tokens widened span gap kind_eq blank covers stop_eq _ ih =>
      rw [List.forall_mem_cons] at each ⊢
      refine ⟨fun _ => ?_, ih each.2⟩
      have here : edge span.stop := stop_eq ▸ limit_of_ends each.2 atEnd
      have node_eq : ofToken source (token.withSpan span) = .void ⟨span, "", ""⟩ := by
        simp only [ofToken, Token.withSpan, kind_eq]
      rw [node_eq]
      exact ⟨_, _, frames_of_blank blank covers, here, here⟩
  | @written token tokens widened span kind_cases before after covers start_eq inner _ ih =>
      rw [List.forall_mem_cons] at each ⊢
      refine ⟨fun _ => ?_, ih each.2⟩
      have place_eq : tokenPlace source (token.withSpan span) =
          ⟨span, token.before, reach token.after tokens⟩ := tokenPlace_eq covers
      rw [LeafEndsAt, @offers_of_kind source (token.withSpan span) kind_cases, place_eq]
      refine ⟨_, _, frames_of_covers before after covers, ?_, ?_⟩
      · exact start_eq ▸ each.1.1
      · rw [← start_eq, ← inner.stop_eq]
        exact each.1.2

/-! ## Settled trees -/

variable {node child : Node} {operands : List Node} {joints : List String} {owns : Ownership}

/-- An edge that owns no whitespace keeps none. -/
theorem settleRec_left_eq (notOwned : owns.left = false) :
    (settleRec source node owns).node.place.left = "" := by
  cases node <;> simp [settleRec, Ownership.settleNode, Ownership.settle, notOwned]

theorem settleRec_right_eq (notOwned : owns.right = false) :
    (settleRec source node owns).node.place.right = "" := by
  cases node <;> simp [settleRec, Ownership.settleNode, Ownership.settle, notOwned]

theorem exists_of_mem_settleOperands {isFirst : Bool}
    (member : child ∈ (settleOperands source isFirst operands).1) :
    ∃ operand ∈ operands, ∃ owns, child = (settleRec source operand owns).node := by
  induction operands generalizing isFirst with
  | nil => contradiction
  | cons operand operands ih =>
      rw [settleOperands] at member
      rcases List.mem_cons.mp member with rfl | later
      · exact ⟨operand, List.mem_cons_self, _, rfl⟩
      · obtain ⟨other, otherMem, owns, child_eq⟩ := ih later
        exact ⟨other, List.mem_cons_of_mem _ otherMem, owns, child_eq⟩

/-- Settled operands start where the first one does, which owns nothing on its left, and
end where the last one does. -/
theorem settleOperands_endsAt {isFirst : Bool}
    (each : ∀ operand ∈ operands, ∀ owns,
      EndsAt lexicon source edge (settleRec source operand owns).node.place)
    (joined : Joined source start (settleOperands source isFirst operands).1 joints stop) :
    (isFirst = true → edge start) ∧ edge stop := by
  induction operands generalizing isFirst start joints with
  | nil => cases joined
  | cons operand operands ih =>
      rw [List.forall_mem_cons] at each
      obtain ⟨_, _, ⟨left, right, _⟩, atStart, atStop⟩ :=
        each.1 (.ofOperand isFirst operands.isEmpty)
      have starts : isFirst = true → edge
          (settleRec source operand (.ofOperand isFirst operands.isEmpty)).node.span.start := by
        rintro rfl
        rw [settleRec_left_eq rfl] at left
        exact left.eq_of_empty ▸ atStart
      cases operands with
      | nil =>
          rw [settleRec_right_eq rfl] at right
          cases joined with
          | last => exact ⟨starts, right.eq_of_empty ▸ atStop⟩
          | cons _ rest => exact absurd rest.length_eq (Nat.succ_ne_zero _).symm
      | cons next operands =>
          cases joined with
          | cons _ rest => exact ⟨starts, (ih each.2 rest).2⟩

/-- Where the leaves of a tree start and end at edges, so does every node once whitespace
is settled. -/
theorem settleRec_endsAt (laid : Laid lexicon source node)
    (leaves : node.Branching (LeafEndsAt lexicon source edge)) (owns : Ownership) :
    ∀ inner : Node, inner.OccursIn (settleRec source node owns).node →
      EndsAt lexicon source edge inner.place := by
  induction leaves generalizing owns with
  | @leaf node alone here =>
      obtain ⟨start, stop, offer, atStart, atStop⟩ := here
      intro inner occurs
      rw [settleRec_of_children_nil owns (children_eq_nil alone)] at occurs
      rcases occurs.root_or_child with rfl | ⟨child, member, _⟩
      · exact ⟨start, stop, (settleNode_handsOn owns offer).1, atStart, atStop⟩
      · rw [Ownership.settleNode, withPlace_children, children_eq_nil alone] at member
        contradiction
  | @group form tag wide operands place _ _ ih =>
      cases laid with
      | group joined within =>
          have each := fun operand member owns => ih operand member (within operand member) owns
          intro inner occurs
          rcases occurs.root_or_child with rfl | ⟨child, member, occurs⟩
          · obtain ⟨_, faithful⟩ := settleRec_settles (.group joined within) owns
            rw [settleRec, Ownership.settleNode, withPlace] at faithful ⊢
            cases faithful with
            | group frames settledJoined _ =>
                obtain ⟨atStart, atStop⟩ := settleOperands_endsAt
                  (fun operand member owns => each operand member owns _ (.root _)) settledJoined
                exact ⟨_, _, frames, atStart rfl, atStop⟩
          · rw [settleRec, Ownership.settleNode, withPlace_children] at member
            obtain ⟨operand, operandMem, owns, rfl⟩ := exists_of_mem_settleOperands member
            exact each operand operandMem owns inner occurs

end Node

end OperatorMarkup
