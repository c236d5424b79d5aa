import OperatorMarkup.Location
import OperatorMarkup.Proofs.Span

/-!
# Merged locations

Where some spans are not empty, their merge is the smallest span that encloses these, and
so depends on nothing but what encloses them.  A merge is enclosed by what encloses the
spans that went into it, so merges can be merged again in place of their spans.
-/

namespace OperatorMarkup

namespace Span

variable {span merged mergedMore other hull : Span} {spans more others : List Span}

/-- A span reaches over another one. -/
def Contains (outer inner : Span) : Prop :=
  outer.start ≤ inner.start ∧ inner.stop ≤ outer.stop

/-- A span reaches over the spans of a list that are not empty. -/
def Encloses (outer : Span) (spans : List Span) : Prop :=
  ∀ span ∈ spans, span.isEmpty = false → outer.Contains span

/-- The smallest span that reaches over the spans of a list that are not empty. -/
structure IsHull (hull : Span) (spans : List Span) : Prop where
  encloses : hull.Encloses spans
  least : ∀ other : Span, other.Encloses spans → other.Contains hull

theorem Contains.trans {outer : Span} (first : outer.Contains other)
    (second : other.Contains span) : outer.Contains span :=
  ⟨Nat.le_trans first.1 second.1, Nat.le_trans second.2 first.2⟩

theorem Contains.antisymm (first : span.Contains other) (second : other.Contains span) :
    span = other :=
  eq_of_ends (Nat.le_antisymm first.1 second.1) (Nat.le_antisymm second.2 first.2)

/-- What reaches over a span that is not empty is not empty. -/
theorem Contains.isEmpty_eq_false {outer : Span} (contains : outer.Contains span)
    (kept : span.isEmpty = false) : outer.isEmpty = false := by
  have ends := span.start_le_stop
  simp only [isEmpty, beq_eq_false_iff_ne] at kept ⊢
  have starts := contains.1
  have stops := contains.2
  omega

theorem encloses_singleton : other.Encloses [span] ↔ (span.isEmpty = false → other.Contains span) :=
  List.forall_mem_singleton

theorem encloses_append :
    other.Encloses (spans ++ more) ↔ other.Encloses spans ∧ other.Encloses more :=
  List.forall_mem_append

/-- Spans that are enclosed alike have one hull. -/
theorem IsHull.eq_of_encloses_iff (first : hull.IsHull spans) (second : other.IsHull others)
    (same : ∀ outer : Span, outer.Encloses spans ↔ outer.Encloses others) : hull = other := by
  apply Contains.antisymm
  · exact second.least hull ((same hull).mp first.encloses)
  · exact first.least other ((same other).mpr second.encloses)

/-! ## Merges -/

theorem merge_eq_head? (empty : ∀ span ∈ spans, span.isEmpty = true) :
    merge spans = spans.head? := by
  cases spans with
  | nil => rfl
  | cons head tail =>
      have none : (head :: tail).filter (fun span => !span.isEmpty) = [] := by
        rw [List.filter_eq_nil_iff]
        intro span member
        rw [empty span member]
        decide
      rw [merge, none]
      rfl

/-- Where some spans are not empty, their merge is their hull. -/
theorem merge_isHull (merge_eq : merge spans = some merged)
    (kept : ∃ span ∈ spans, span.isEmpty = false) : merged.IsHull spans := by
  refine ⟨fun span member spanKept => merge_covers merge_eq member spanKept, ?_⟩
  intro other encloses
  cases spans with
  | nil => contradiction
  | cons head tail =>
      rw [merge] at merge_eq
      split at merge_eq
      · next filter_eq =>
          obtain ⟨span, member, spanKept⟩ := kept
          have dropped := List.filter_eq_nil_iff.mp filter_eq span member
          rw [spanKept] at dropped
          contradiction
      · next covered more filter_eq =>
          cases merge_eq
          apply foldl_hull_within covered more
          intro span member
          rw [← filter_eq, List.mem_filter, Bool.not_eq_true'] at member
          exact encloses span member.1 member.2

/-- A merge is empty where all of its spans are. -/
theorem isEmpty_merge_iff (merge_eq : merge spans = some merged) :
    merged.isEmpty = false ↔ ∃ span ∈ spans, span.isEmpty = false := by
  constructor
  · intro mergedKept
    by_contra none
    have empty : ∀ span ∈ spans, span.isEmpty = true := by
      simpa using none
    rw [merge_eq_head? empty] at merge_eq
    rw [empty merged (List.mem_of_head? merge_eq)] at mergedKept
    contradiction
  · rintro ⟨span, member, kept⟩
    exact Contains.isEmpty_eq_false (merge_covers merge_eq member kept) kept

/-- A merge is enclosed by what encloses its spans. -/
theorem encloses_merge_iff (merge_eq : merge spans = some merged) :
    other.Encloses [merged] ↔ other.Encloses spans := by
  rw [encloses_singleton, isEmpty_merge_iff merge_eq]
  constructor
  · intro contains span member kept
    exact (contains ⟨span, member, kept⟩).trans (merge_covers merge_eq member kept)
  · intro encloses kept
    exact (merge_isHull merge_eq kept).least other encloses

/-- Merges of spans that are enclosed alike are equal, where some span is not empty. -/
theorem merge_eq_of_encloses_iff (kept : ∃ span ∈ spans, span.isEmpty = false)
    (keptOther : ∃ span ∈ others, span.isEmpty = false)
    (same : ∀ outer : Span, outer.Encloses spans ↔ outer.Encloses others) :
    merge spans = merge others := by
  obtain ⟨merged, merge_eq⟩ := exists_merge (List.ne_nil_of_mem kept.choose_spec.1)
  obtain ⟨merged', merge_eq'⟩ := exists_merge (List.ne_nil_of_mem keptOther.choose_spec.1)
  rw [merge_eq, merge_eq', (merge_isHull merge_eq kept).eq_of_encloses_iff
    (merge_isHull merge_eq' keptOther) same]

/-- A merge depends only on which spans there are that are not empty. -/
theorem merge_eq_of_same (kept : ∃ span ∈ spans, span.isEmpty = false)
    (same : ∀ span : Span, span.isEmpty = false → (span ∈ others ↔ span ∈ spans)) :
    merge others = merge spans := by
  obtain ⟨span, member, spanKept⟩ := kept
  apply merge_eq_of_encloses_iff ⟨span, (same span spanKept).mpr member, spanKept⟩
    ⟨span, member, spanKept⟩
  intro outer
  constructor
  · intro encloses span member kept
    exact encloses span ((same span kept).mpr member) kept
  · intro encloses span member kept
    exact encloses span ((same span kept).mp member) kept

/-- Spans can be merged part by part. -/
theorem merge_append (merge_eq : merge spans = some merged)
    (merge_eq' : merge more = some mergedMore) :
    merge (spans ++ more) = merge [merged, mergedMore] := by
  have kept_iff : (∃ span ∈ spans ++ more, span.isEmpty = false) ↔
      ∃ span ∈ [merged, mergedMore], span.isEmpty = false := by
    simp only [List.mem_append, or_and_right, exists_or, ← isEmpty_merge_iff merge_eq,
      ← isEmpty_merge_iff merge_eq', List.mem_cons, List.not_mem_nil, or_false, exists_eq_left]
  by_cases kept : ∃ span ∈ spans ++ more, span.isEmpty = false
  · apply merge_eq_of_encloses_iff kept (kept_iff.mp kept)
    intro outer
    rw [← List.singleton_append, encloses_append, encloses_append, encloses_merge_iff merge_eq,
      encloses_merge_iff merge_eq']
  · have keptPair := mt kept_iff.mpr kept
    simp only [not_exists, not_and, Bool.not_eq_false] at kept keptPair
    have empty : ∀ span ∈ spans, span.isEmpty = true := fun span member =>
      kept span (List.mem_append_left more member)
    rw [merge_eq_head? empty] at merge_eq
    rw [merge_eq_head? kept, merge_eq_head? keptPair, List.head?_append, merge_eq]
    rfl

end Span

namespace Location

theorem merge_map_mk (source : Source) (spans : List Span) :
    merge (spans.map (mk source)) = (Span.merge spans).map (mk source) := by
  cases spans with
  | nil => rfl
  | cons span spans => simp [merge, Function.comp_def]

/-- Locations over one source have a merge.  It is the smallest span that reaches over those that
are not empty, whatever their order, number and the empty ones beside them, or the first location
where all are empty.  Merging two merges merges all that went into them, and locations that lie
one behind the other merge to the range that they tile. -/
theorem merge_spans (source : Source) (spans : List Span) (nonempty : spans ≠ []) :
    ∃ merged : Span, merge (spans.map (mk source)) = some ⟨source, merged⟩ ∧
      ((∃ span ∈ spans, span.isEmpty = false) → merged.IsHull spans ∧
        ∀ others : List Span, (∀ span : Span, span.isEmpty = false →
          (span ∈ others ↔ span ∈ spans)) →
            merge (others.map (mk source)) = some ⟨source, merged⟩) ∧
      ((∀ span ∈ spans, span.isEmpty = true) → spans.head? = some merged) ∧
      (∀ more : List Span, more ≠ [] → ∃ mergedMore : Span,
        merge (more.map (mk source)) = some ⟨source, mergedMore⟩ ∧
          merge ((spans ++ more).map (mk source)) =
            merge [⟨source, merged⟩, ⟨source, mergedMore⟩]) ∧
      ∀ start stop : Nat, Span.Tile start spans stop →
        merged.start = start ∧ merged.stop = stop := by
  obtain ⟨merged, merge_eq⟩ := Span.exists_merge nonempty
  refine ⟨merged, by rw [merge_map_mk, merge_eq]; rfl, ?_, ?_, ?_, ?_⟩
  · intro kept
    refine ⟨Span.merge_isHull merge_eq kept, fun others same => ?_⟩
    rw [merge_map_mk, Span.merge_eq_of_same kept same, merge_eq]
    rfl
  · intro empty
    rw [← Span.merge_eq_head? empty, merge_eq]
  · intro more nonemptyMore
    obtain ⟨mergedMore, merge_eq'⟩ := Span.exists_merge nonemptyMore
    refine ⟨mergedMore, by rw [merge_map_mk, merge_eq']; rfl, ?_⟩
    have pair_eq : merge [⟨source, merged⟩, ⟨source, mergedMore⟩] =
        (Span.merge [merged, mergedMore]).map (mk source) :=
      merge_map_mk source [merged, mergedMore]
    rw [merge_map_mk, pair_eq, Span.merge_append merge_eq merge_eq']
  · intro start stop tile
    have tiled := Span.merge_eq_of_tile tile nonempty fun _ => Iff.rfl
    obtain rfl := Option.some.inj (merge_eq.symm.trans tiled)
    exact ⟨rfl, rfl⟩

/-- Spans out of order, with empty ones before and between them. -/
def scatteredSpans : List Span :=
  [.point 9, .between 6 7, .point 4, .between 2 3]

theorem merge_spans_scattered :
    scatteredSpans ≠ [] ∧ ∃ merged : Span,
      merge (scatteredSpans.map (mk { text := "a b c d e" })) =
          some ⟨{ text := "a b c d e" }, merged⟩ ∧
        merged.IsHull scatteredSpans := by
  have kept : ∃ span ∈ scatteredSpans, span.isEmpty = false := ⟨.between 6 7, by decide, by decide⟩
  obtain ⟨merged, merge_eq, hull, _⟩ :=
    merge_spans { text := "a b c d e" } scatteredSpans (by decide)
  exact ⟨by decide, merged, merge_eq, (hull kept).1⟩

end Location

end OperatorMarkup
