import Mathlib.Tactic.ByContra
import OperatorMarkup.Span

/-!
# Spans that tile

Spans tile a range where each starts at the stop of the one before.  Merging the
spans of a tiling gives the range back, in whatever order they are merged and
however many of them are empty.
-/

namespace OperatorMarkup

namespace Span

/-- Spans lie one behind the other from an offset to another. -/
inductive Tile : Nat → List Span → Nat → Prop
  /-- Nothing lies between an offset and itself. -/
  | nil (offset : Nat) : Tile offset [] offset
  /-- A span lies in front. -/
  | cons {span : Span} {spans : List Span} {stop : Nat} (rest : Tile span.stop spans stop) :
      Tile span.start (span :: spans) stop

variable {start middle stop : Nat} {span : Span} {spans first second pieces : List Span}

/-- A span is given by its ends. -/
theorem eq_of_ends {other : Span} (start_eq : span.start = other.start)
    (stop_eq : span.stop = other.stop) : span = other := by
  cases span
  cases other
  cases start_eq
  cases stop_eq
  rfl

namespace Tile

theorem cons_of_eq (start_eq : span.start = start) (rest : Tile span.stop spans stop) :
    Tile start (span :: spans) stop := by
  rw [← start_eq]
  exact .cons rest

theorem uncons (tile : Tile start (span :: spans) stop) :
    span.start = start ∧ Tile span.stop spans stop := by
  cases tile with
  | cons rest => exact ⟨rfl, rest⟩

theorem eq_of_nil (tile : Tile start [] stop) : start = stop := by
  cases tile
  rfl

theorem append (tile : Tile start first middle) (next : Tile middle second stop) :
    Tile start (first ++ second) stop := by
  induction tile with
  | nil => exact next
  | cons _ ih => exact .cons (ih next)

/-- A tiling by two lists of spans falls apart into two tilings. -/
theorem exists_middle (tile : Tile start (first ++ second) stop) :
    ∃ middle, Tile start first middle ∧ Tile middle second stop := by
  induction first generalizing start with
  | nil => exact ⟨start, .nil start, tile⟩
  | cons span first ih =>
      cases tile with
      | cons rest =>
          obtain ⟨middle, left, right⟩ := ih rest
          exact ⟨middle, .cons left, right⟩

theorem le (tile : Tile start spans stop) : start ≤ stop := by
  induction tile with
  | nil => exact Nat.le_refl _
  | @cons span _ _ _ ih => exact Nat.le_trans span.start_le_stop ih

theorem within (tile : Tile start spans stop) :
    ∀ span ∈ spans, start ≤ span.start ∧ span.stop ≤ stop := by
  induction tile with
  | nil => simp
  | @cons span _ _ rest ih =>
      rw [List.forall_mem_cons]
      constructor
      · exact ⟨Nat.le_refl _, rest.le⟩
      · intro other member
        have inside := ih other member
        exact ⟨Nat.le_trans span.start_le_stop inside.1, inside.2⟩

/-- A range that is not empty has a span that is not empty at its start. -/
theorem exists_at_start (tile : Tile start spans stop) (nonempty : start < stop) :
    ∃ span ∈ spans, span.start = start ∧ span.isEmpty = false := by
  induction tile with
  | nil => exact absurd nonempty (Nat.lt_irrefl _)
  | @cons span _ _ _ ih =>
      cases empty : span.isEmpty with
      | false => exact ⟨span, List.mem_cons_self, rfl, empty⟩
      | true =>
          have ends := (isEmpty_iff span).mp empty
          obtain ⟨other, member, start_eq, kept⟩ := ih (ends ▸ nonempty)
          exact ⟨other, List.mem_cons_of_mem _ member, start_eq.trans ends.symm, kept⟩

/-- A range that is not empty has a span that is not empty at its stop. -/
theorem exists_at_stop (tile : Tile start spans stop) (nonempty : start < stop) :
    ∃ span ∈ spans, span.stop = stop ∧ span.isEmpty = false := by
  induction tile with
  | nil => exact absurd nonempty (Nat.lt_irrefl _)
  | @cons span spans stop rest ih =>
      by_cases more : span.stop < stop
      · obtain ⟨other, member, stop_eq, kept⟩ := ih more
        exact ⟨other, List.mem_cons_of_mem _ member, stop_eq, kept⟩
      · have stop_eq : span.stop = stop := Nat.le_antisymm rest.le (Nat.not_lt.mp more)
        refine ⟨span, List.mem_cons_self, stop_eq, ?_⟩
        by_contra empty
        rw [Bool.not_eq_false, isEmpty_iff, stop_eq] at empty
        exact absurd nonempty (empty ▸ Nat.lt_irrefl _)

end Tile

/-! ## Merged spans -/

theorem foldl_hull_covers (covered : Span) (more : List Span) :
    ∀ span ∈ covered :: more, (more.foldl hull covered).start ≤ span.start ∧
      span.stop ≤ (more.foldl hull covered).stop := by
  induction more generalizing covered with
  | nil => simp
  | cons next more ih =>
      have rest := List.forall_mem_cons.mp (ih (hull covered next))
      rw [hull_start, hull_stop] at rest
      rw [List.forall_mem_cons]
      constructor
      · exact ⟨Nat.le_trans rest.1.1 (Nat.min_le_left _ _),
          Nat.le_trans (Nat.le_max_left _ _) rest.1.2⟩
      · rw [List.forall_mem_cons]
        exact ⟨⟨Nat.le_trans rest.1.1 (Nat.min_le_right _ _),
          Nat.le_trans (Nat.le_max_right _ _) rest.1.2⟩, rest.2⟩

theorem foldl_hull_within (covered : Span) (more : List Span)
    (inside : ∀ span ∈ covered :: more, start ≤ span.start ∧ span.stop ≤ stop) :
    start ≤ (more.foldl hull covered).start ∧ (more.foldl hull covered).stop ≤ stop := by
  induction more generalizing covered with
  | nil => exact inside covered List.mem_cons_self
  | cons next more ih =>
      simp only [List.forall_mem_cons] at inside
      apply ih (hull covered next)
      rw [List.forall_mem_cons]
      constructor
      · exact ⟨Nat.le_min.mpr ⟨inside.1.1, inside.2.1.1⟩, Nat.max_le.mpr ⟨inside.1.2, inside.2.1.2⟩⟩
      · exact inside.2.2

/-- A merge covers the spans that are not empty. -/
theorem merge_covers {merged : Span} (merge_eq : merge spans = some merged)
    (member : span ∈ spans) (kept : span.isEmpty = false) :
    merged.start ≤ span.start ∧ span.stop ≤ merged.stop := by
  cases spans with
  | nil => contradiction
  | cons head tail =>
      have filtered : span ∈ (head :: tail).filter (fun span => !span.isEmpty) := by
        rw [List.mem_filter, kept]
        exact ⟨member, rfl⟩
      rw [merge] at merge_eq
      split at merge_eq
      · next filter_eq =>
          rw [filter_eq] at filtered
          contradiction
      · next covered more filter_eq =>
          rw [filter_eq] at filtered
          cases merge_eq
          exact foldl_hull_covers covered more span filtered

/-- A merge is no shorter than any span that went into it. -/
theorem length_le_of_merge {merged : Span} (merge_eq : merge spans = some merged)
    (member : span ∈ spans) : span.length ≤ merged.length := by
  simp only [length]
  cases empty : span.isEmpty with
  | true =>
      rw [(isEmpty_iff span).mp empty, Nat.sub_self]
      exact Nat.zero_le _
  | false =>
      have bounds := merge_covers merge_eq member empty
      omega

/-- A merge lies where all of its spans do. -/
theorem merge_within {merged : Span} (merge_eq : merge spans = some merged)
    (inside : ∀ span ∈ spans, start ≤ span.start ∧ span.stop ≤ stop) :
    start ≤ merged.start ∧ merged.stop ≤ stop := by
  cases spans with
  | nil => contradiction
  | cons head tail =>
      rw [merge] at merge_eq
      split at merge_eq
      · cases merge_eq
        exact inside _ List.mem_cons_self
      · next covered more filter_eq =>
          cases merge_eq
          apply foldl_hull_within covered more
          intro span member
          rw [← filter_eq] at member
          exact inside span (List.mem_filter.mp member).1

theorem exists_merge (nonempty : spans ≠ []) : ∃ merged, merge spans = some merged := by
  cases spans with
  | nil => contradiction
  | cons head tail =>
      rw [merge]
      split
      · exact ⟨_, rfl⟩
      · exact ⟨_, rfl⟩

/-- The spans of a tiling merge to the range that they tile. -/
theorem merge_eq_of_tile (tile : Tile start pieces stop) (nonempty : spans ≠ [])
    (same : ∀ span, span ∈ spans ↔ span ∈ pieces) :
    merge spans = some ⟨start, stop, tile.le⟩ := by
  rcases exists_merge nonempty with ⟨merged, merge_eq⟩
  have inside : start ≤ merged.start ∧ merged.stop ≤ stop :=
    merge_within merge_eq fun span member => tile.within span ((same span).mp member)
  have reaches : merged.start ≤ start ∧ stop ≤ merged.stop := by
    rcases Nat.lt_or_eq_of_le tile.le with less | rfl
    · rcases tile.exists_at_start less with ⟨first, firstMem, rfl, firstKept⟩
      rcases tile.exists_at_stop less with ⟨last, lastMem, rfl, lastKept⟩
      rw [← same] at firstMem lastMem
      exact ⟨(merge_covers merge_eq firstMem firstKept).1,
        (merge_covers merge_eq lastMem lastKept).2⟩
    · have ends := merged.start_le_stop
      omega
  rw [merge_eq, Option.some.injEq]
  apply eq_of_ends
  · exact Nat.le_antisymm reaches.1 inside.1
  · exact Nat.le_antisymm inside.2 reaches.2

end Span

end OperatorMarkup
