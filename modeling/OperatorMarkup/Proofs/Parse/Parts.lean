import Mathlib
import OperatorMarkup.Proofs.Parse.Conservation
import OperatorMarkup.Proofs.Parse.RoundTrip
import OperatorMarkup.Proofs.Token.Cutting
import OperatorMarkup.Proofs.Tree.Edges

/-!
# Reading the text of a node again

Without the whitespace that it owns, a node covers a part of the text that starts and ends
where tokens do.  So the part is read into just the tokens inside of it, although the text
around it is gone.
-/

namespace OperatorMarkup

open Grouping

variable {lexicon : Lexicon} {source : Source} {tokens : List Token} {root node : Node}

theorem FixityChoice.Decides.span_eq {token other : Token} (decides : Decides token other) :
    other.span = token.span := by
  cases decides <;> rfl

/-- Tokens start and end where they did before their fixities were decided. -/
theorem FixityChoice.ends_of_decides {edge : Nat → Prop} {before behind : List Token}
    (decides : List.Forall₂ Decides before behind)
    (each : ∀ token ∈ before, edge token.span.start ∧ edge token.span.stop) :
    ∀ token ∈ behind, edge token.span.start ∧ edge token.span.stop := by
  induction decides with
  | nil => simp
  | cons first _ ih =>
      rw [List.forall_mem_cons] at each ⊢
      rw [first.span_eq]
      exact ⟨each.1, ih each.2⟩

/-- The tokens of every step start and end where those that were read do. -/
theorem Steps.ends (steps : Steps lexicon source) (complete : steps.failure = none) :
    ∀ token ∈ steps.alternating,
      Edge source steps.read token.span.start ∧ Edge source steps.read token.span.stop := by
  have here : Edge source steps.read 0 := .inl rfl
  have lowered := Indentation.stage_inserts.ends steps.lowers here fun token member =>
    ⟨.inr (.inr ⟨token, member, .inl rfl⟩), .inr (.inr ⟨token, member, .inr rfl⟩)⟩
  exact Alternation.stage_inserts.ends steps.alternates here
    (FixityChoice.ends_of_decides (steps.decidesAll complete) lowered)

namespace Node

/-- The part of a source that a node covers, without owned whitespace. -/
def innerSpan (node : Node) : Span :=
  .between (node.span.start + node.place.left.utf8ByteSize)
    (node.span.stop - node.place.right.utf8ByteSize)

theorem innerSpan_eq {start stop : Nat} (frames : Frames lexicon source node.place start stop) :
    node.innerSpan = ⟨start, stop, frames.le⟩ := by
  apply Span.eq_of_ends
  · exact frames.left.stop_eq.symm
  · have stop_eq : node.span.stop - node.place.right.utf8ByteSize = stop := by
      rw [span, frames.right.stop_eq, Nat.add_sub_cancel]
    rw [innerSpan, Span.between_stop, stop_eq, span, ← frames.left.stop_eq]
    exact Nat.max_eq_right frames.le

/-- The text of a node without owned whitespace is that of its inner span. -/
theorem RoundTrips.rawText_eq (roundTrips : node.RoundTrips lexicon source) :
    node.rawText source = source.slice node.innerSpan := by
  have text_eq := roundTrips.sourceText_eq
  have holds := roundTrips.covers.holds
  have stop_eq := roundTrips.covers.stop_eq
  rw [text_eq] at holds stop_eq
  rw [String.utf8ByteSize_append, String.utf8ByteSize_append] at stop_eq
  have inner_eq : node.innerSpan.stop =
      node.span.start + node.place.left.utf8ByteSize + (node.body source).utf8ByteSize := by
    rw [innerSpan, Span.between_stop, stop_eq]
    omega
  have raw_eq : node.rawText source = node.body source := by
    have slice := sliceBytes_append node.place.left (node.body source) node.place.right
    simp only [rawText, text_eq, String.utf8ByteSize_append, Nat.add_sub_cancel]
    rwa [Nat.min_eq_left (by omega), Nat.max_eq_left (by omega)]
  rw [raw_eq, Source.slice, inner_eq]
  exact holds.left.right.sliceBytes_eq.symm

end Node

/-- The inner span of each node of a parsed tree starts and ends where tokens of the text
do. -/
theorem innerSpan_edges (parsed : parse lexicon source = .ok root) :
    ∃ tokens : List Token, tokenize lexicon source = tokens.map .ok ∧
      ∀ node : Node, node.OccursIn root →
        Edge source tokens node.innerSpan.start ∧ Edge source tokens node.innerSpan.stop := by
  obtain ⟨tokens, tree, built, stream_eq, streams, groups, rfl⟩ := exists_groups_of_parse parsed
  obtain ⟨steps, steps_eq⟩ := exists_steps lexicon source
  obtain ⟨rfl, complete⟩ := stream_inj (stream_eq.symm.trans steps_eq)
  have readable := steps.read_eq
  have decides := steps.decides
  rw [← complete] at decides
  rw [decides.failure_eq_none, stream_none] at readable
  have leaves : built.Branching (Node.LeafEndsAt lexicon source (Edge source steps.read)) := by
    apply Node.build_branching groups.build_eq
    rw [groups.elements_eq, operandsOf_elements]
    intro token member
    obtain ⟨written, operand⟩ := List.mem_filter.mp member
    exact Node.leafEndsAt_of_widens (steps.widens complete.symm) (steps.ends complete.symm)
      (.inr (.inl rfl)) token written operand
  refine ⟨steps.read, readable, fun node occurs => ?_⟩
  rw [Node.settle_eq_settleRec] at occurs
  obtain ⟨_, _, frames, atStart, atStop⟩ :=
    Node.settleRec_endsAt (groups.laid streams).1 leaves ⟨true, true⟩ node occurs
  rw [Node.innerSpan_eq frames]
  exact ⟨atStart, atStop⟩

/-- A part of a text that starts and ends at edges is read into the tokens inside of it, and
each node of a parsed tree covers such a part, without the whitespace that it owns. -/
theorem parts_read_alike (lexicon : Lexicon) (source : Source) :
    (∀ (tokens : List Token) (span : Span), tokenize lexicon source = tokens.map .ok →
      Edge source tokens span.start → Edge source tokens span.stop →
        IsReadInside lexicon source tokens span) ∧
    ∀ root : Node, parse lexicon source = .ok root →
      ∃ tokens : List Token, tokenize lexicon source = tokens.map .ok ∧
        ∀ node : Node, node.OccursIn root →
          node.rawText source = (source.part node.innerSpan).text ∧
            Edge source tokens node.innerSpan.start ∧ Edge source tokens node.innerSpan.stop ∧
            IsReadInside lexicon source tokens node.innerSpan := by
  refine ⟨fun tokens span read_eq start stop => tokenize_part read_eq start stop, ?_⟩
  intro root parsed
  obtain ⟨tokens, read_eq, edges⟩ := innerSpan_edges parsed
  refine ⟨tokens, read_eq, fun node occurs => ?_⟩
  obtain ⟨start, stop⟩ := edges node occurs
  have roundTrips := ((faithful_of_parse parsed).1.of_occursIn occurs).roundTrips
  exact ⟨roundTrips.rawText_eq, start, stop, tokenize_part read_eq start stop⟩

end OperatorMarkup
