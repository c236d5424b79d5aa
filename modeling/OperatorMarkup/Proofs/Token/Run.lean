import OperatorMarkup.Proofs.Token.Reading

/-!
# Runs of a reader

A run takes a cursor over some tokens to one where no rule matches.  Every cursor has
one, and reading writes its tokens, so what holds of a reader follows from its runs.
The tokens lie one behind the other, and where reading stops early, the error is about
one character of the text.
-/

namespace OperatorMarkup

variable {lexicon : Lexicon} {source : Source}

namespace Cursor

variable {cursor last : Cursor} {rule : Rule} {size start : Nat} {tokens : List Token}

theorem next?_of_firstRule? (found : lexicon.firstRule? cursor.rest = some rule) :
    cursor.next? lexicon size =
      some ((cursor.take lexicon size rule).1, (cursor.take lexicon size rule).2) := by
  rw [next?, found]
  rfl

theorem readAll_of_firstRule?_none (none : lexicon.firstRule? cursor.rest = none) :
    cursor.readAll lexicon size = cursor.ending :=
  readAll_of_next?_none (by rw [next?, none]; rfl)

theorem readAll_of_firstRule?_some (found : lexicon.firstRule? cursor.rest = some rule) :
    cursor.readAll lexicon size =
      .ok (cursor.take lexicon size rule).1 ::
        (cursor.take lexicon size rule).2.readAll lexicon size :=
  readAll_of_next?_some (next?_of_firstRule? found)

/-! ## Runs -/

/-- A cursor reads some tokens, and comes to one where no rule matches. -/
inductive Reads (lexicon : Lexicon) (size : Nat) : Cursor → List Token → Cursor → Prop
  /-- No rule matches. -/
  | stop {cursor : Cursor} (none : lexicon.firstRule? cursor.rest = none) :
      Reads lexicon size cursor [] cursor
  /-- A rule reads a token. -/
  | token {cursor last : Cursor} {rule : Rule} {tokens : List Token}
      (found : lexicon.firstRule? cursor.rest = some rule)
      (behind : Reads lexicon size (cursor.take lexicon size rule).2 tokens last) :
      Reads lexicon size cursor ((cursor.take lexicon size rule).1 :: tokens) last

/-- There is nothing to read at the end of a text. -/
theorem Reads.of_rest_nil (size : Nat) (ended : cursor.rest = []) :
    Reads lexicon size cursor [] cursor :=
  .stop (by rw [ended]; rfl)

theorem Reads.eq_nil (reads : Reads lexicon size cursor tokens last) (ended : cursor.rest = []) :
    tokens = [] := by
  cases reads with
  | stop => rfl
  | token found => exact absurd ended (Lexicon.ne_nil_of_firstRule? found)

/-- There is a run from every cursor, since each token takes some of the text. -/
theorem exists_reads (lexicon : Lexicon) (size : Nat) (cursor : Cursor) :
    ∃ tokens last, Reads lexicon size cursor tokens last := by
  induction remaining : cursor.rest.length using Nat.strongRecOn generalizing cursor with
  | ind remaining ih =>
      cases found : lexicon.firstRule? cursor.rest with
      | none => exact ⟨[], cursor, .stop found⟩
      | some rule =>
          have shorter := cursor.take_rest_length_lt lexicon size rule
            (Lexicon.ne_nil_of_firstRule? found) (Lexicon.applies_of_firstRule? found)
          obtain ⟨tokens, last, reads⟩ := ih _ (remaining ▸ shorter) _ rfl
          exact ⟨_, last, .token found reads⟩

/-- Reading writes the tokens of a run, and what is written where it ends. -/
theorem Reads.readAll_eq (reads : Reads lexicon size cursor tokens last) :
    cursor.readAll lexicon size = tokens.map .ok ++ last.ending := by
  induction reads with
  | stop none => exact readAll_of_firstRule?_none none
  | token found _ ih =>
      rw [readAll_of_firstRule?_some found, ih]
      rfl

/-- A text is read without an error by a run that leaves nothing. -/
theorem readAll_eq_map_ok_iff :
    cursor.readAll lexicon size = tokens.map .ok ↔
      ∃ last, Reads lexicon size cursor tokens last ∧ last.rest = [] := by
  constructor
  · intro read_eq
    obtain ⟨tokens', last, reads⟩ := exists_reads lexicon size cursor
    rw [reads.readAll_eq] at read_eq
    cases rest_eq : last.rest with
    | nil =>
        rw [ending, rest_eq, List.append_nil, ← stream_none, ← stream_none] at read_eq
        obtain ⟨rfl, _⟩ := stream_inj read_eq
        exact ⟨last, reads, rest_eq⟩
    | cons c rest =>
        rw [ending, rest_eq] at read_eq
        have member : Except.error _ ∈ tokens.map (Except.ok : Token → Item) :=
          read_eq ▸ List.mem_append_right _ List.mem_cons_self
        obtain ⟨_, _, impossible⟩ := List.mem_map.mp member
        contradiction
  · rintro ⟨last, reads, rest_eq⟩
    rw [reads.readAll_eq, ending, rest_eq, List.append_nil]

/-! ## Tokens of a run -/

/-- The tokens of a run lie behind the cursor and are not empty. -/
theorem Reads.within (reads : Reads lexicon size cursor tokens last) :
    ∀ token ∈ tokens, cursor.offset ≤ token.span.start ∧ token.span.start < token.span.stop := by
  induction reads with
  | stop => simp
  | @token cursor last rule tokens found _ ih =>
      have some := offset_lt_stopOf found
      have skipped := @stopOf_le_take_offset lexicon size cursor rule
      refine List.forall_mem_cons.mpr ⟨⟨Nat.le_refl _, ?_⟩, fun token member => ?_⟩
      · rw [take_start, take_stop]
        exact some
      · have behind := ih token member
        omega

/-- The tokens of a run lie one behind the other. -/
theorem Reads.pairwise (reads : Reads lexicon size cursor tokens last) :
    tokens.Pairwise fun first second => first.span.stop ≤ second.span.start := by
  induction reads with
  | stop => exact .nil
  | @token cursor last rule tokens found behind ih =>
      refine .cons (fun token member => ?_) ih
      have within := (behind.within token member).1
      have skipped := @stopOf_le_take_offset lexicon size cursor rule
      rw [take_stop]
      omega

/-- What a run reads behind some of its tokens is a run. -/
theorem Reads.exists_behind {front back : List Token}
    (reads : Reads lexicon size cursor (front ++ back) last) :
    ∃ middle, Reads lexicon size middle back last := by
  induction front generalizing cursor with
  | nil => exact ⟨cursor, reads⟩
  | cons token front ih =>
      cases reads with
      | token _ rest => exact ih rest

/-- Where a cursor stands in a source, so does every cursor of its run. -/
theorem Reads.stands (reads : Reads lexicon size cursor tokens last)
    (stands : cursor.Stands lexicon source start) : ∃ start, last.Stands lexicon source start := by
  induction reads generalizing start with
  | stop => exact ⟨start, stands⟩
  | token _ _ ih => exact ih (take_stands stands size _)

/-- Each token of a run is what its span covers. -/
theorem Reads.covers (reads : Reads lexicon size cursor tokens last)
    (stands : cursor.Stands lexicon source start) :
    ∀ token ∈ tokens, source.Covers token.span token.text := by
  induction reads generalizing start with
  | stop => simp
  | token _ _ ih =>
      exact List.forall_mem_cons.mpr
        ⟨take_covers stands size _, ih (take_stands stands size _)⟩

/-- What holds of the token of each rule holds of all tokens of a run. -/
theorem Reads.forall_mem {holds : Token → Prop}
    (each : ∀ (cursor : Cursor) (rule : Rule), lexicon.firstRule? cursor.rest = some rule →
      holds (cursor.take lexicon size rule).1)
    (reads : Reads lexicon size cursor tokens last) : ∀ token ∈ tokens, holds token := by
  induction reads with
  | stop => simp
  | token found _ ih => exact List.forall_mem_cons.mpr ⟨each _ _ found, ih⟩

/-- The tokens of a run that leaves nothing lie one behind the other to the end of the
text. -/
theorem Reads.placed (reads : Reads lexicon source.size cursor tokens last)
    (ended : last.rest = []) (stands : cursor.Stands lexicon source start) :
    Placed lexicon source start cursor.gap tokens := by
  induction reads generalizing start with
  | stop =>
      have size_eq := stands.size_eq
      rw [ended, stands.offset_eq] at size_eq
      exact .nil stands.gap_holds stands.blank size_eq
  | token found _ ih =>
      apply Placed.written (take_isRead source found).written stands.gap_holds stands.blank rfl
      · exact stands.offset_eq
      · exact take_covers stands source.size _
      · exact ih ended (take_stands stands source.size _)

end Cursor

/-! ## Sources -/

theorem tokenize_isRead {token : Token} (member : .ok token ∈ tokenize lexicon source) :
    token.IsRead source := by
  obtain ⟨tokens, last, reads⟩ := Cursor.exists_reads lexicon source.size
    (Cursor.skipGap lexicon 0 source.text.toList)
  rw [tokenize, reads.readAll_eq, Cursor.ending] at member
  rcases List.mem_append.mp member with read | ended
  · obtain ⟨other, otherMem, other_eq⟩ := List.mem_map.mp read
    obtain rfl := Except.ok.inj other_eq
    exact reads.forall_mem (fun _ _ found => Cursor.take_isRead source found) other otherMem
  · split at ended <;> simp at ended

/-- The tokens of a source fit their lexemes and lie one behind the other from its
start, up to its end or to a character that starts none. -/
theorem tokenize_placed (lexicon : Lexicon) (source : Source) :
    ∃ tokens failure gap, tokenize lexicon source = stream tokens failure ∧
      (∀ token ∈ tokens, token.Fits lexicon ∧ token.Seated source ∧
        token.lexeme.isSynthetic = false) ∧
      (failure = none → Placed lexicon source 0 gap tokens) ∧
      ∀ error ∈ failure, ∃ span : Span, error = .noToken span ∧ span.start < span.stop ∧
        span.stop ≤ source.size := by
  have stands := source.skipGap_stands lexicon
  obtain ⟨tokens, last, reads⟩ := Cursor.exists_reads lexicon source.size
    (Cursor.skipGap lexicon 0 source.text.toList)
  obtain ⟨_, lastStands⟩ := reads.stands stands
  have sound : ∀ token ∈ tokens, token.Fits lexicon ∧ token.Seated source ∧
      token.lexeme.isSynthetic = false := by
    intro token member
    have fits := reads.forall_mem (fun _ _ found => Cursor.take_fits source.size found) token member
    have isRead := reads.forall_mem (fun _ _ found => Cursor.take_isRead source found) token member
    exact ⟨fits, Token.seated_of_covers fits (reads.covers stands token member), isRead.written⟩
  rcases Cursor.ending_cases lastStands with ⟨ending_eq, ended⟩ | ⟨span, ending_eq, inside⟩
  · refine ⟨tokens, none, _, ?_, sound, fun _ => reads.placed ended stands, nofun⟩
    rw [tokenize, reads.readAll_eq, ending_eq, List.append_nil, stream_none]
  · refine ⟨tokens, some (.noToken span), "", ?_, sound, nofun, ?_⟩
    · rw [tokenize, reads.readAll_eq, ending_eq]
      rfl
    · intro error member
      exact ⟨span, (Option.some.inj member).symm, inside⟩

end OperatorMarkup
