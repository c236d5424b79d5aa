import Mathlib.Data.List.Forall2
import OperatorMarkup.Proofs.Token.Ending

/-!
# Parts of a text

No rule looks past the end of what it matches, so a text that is cut where no token is
cut apart is read as before on either side.  A gap may be cut anywhere.
-/

namespace OperatorMarkup

variable {lexicon : Lexicon} {kept behind skipped : List Char} {rule : Rule}

/-! ## What a rule matches before a cut -/

namespace Pattern

variable {reserved : List Char} {escape c : Char}

/-- A word does not get shorter with more text behind it. -/
theorem wordLength_le_append (behind : List Char) (counted : Nat) (kept : List Char) :
    wordLength reserved escape counted kept ≤
      wordLength reserved escape counted (kept ++ behind) := by
  induction counted, kept using wordLength.induct reserved escape with
  | case1 counted => exact (wordLength_bounds reserved escape counted behind).1
  | case2 counted =>
      simpa [wordLength] using (wordLength_bounds reserved escape counted ([escape] ++ behind)).1
  | case3 counted c rest ih =>
      simp only [List.cons_append, wordLength, if_true]
      exact ih
  | case4 counted c rest notEscape member =>
      rw [List.cons_append, wordLength_of_reserved notEscape member,
        wordLength_of_reserved notEscape member]
  | case5 counted c rest notEscape notMember ih =>
      rw [List.cons_append, wordLength_of_unreserved notEscape notMember,
        wordLength_of_unreserved notEscape notMember]
      exact ih

/-- A word that ends before a cut does not depend on what is behind. -/
theorem wordLength_of_append_le (behind : List Char) (counted : Nat) (kept : List Char)
    (inside : wordLength reserved escape counted (kept ++ behind) ≤ counted + kept.length) :
    wordLength reserved escape counted kept =
      wordLength reserved escape counted (kept ++ behind) := by
  induction counted, kept using wordLength.induct reserved escape with
  | case1 counted =>
      exact Nat.le_antisymm (wordLength_bounds reserved escape counted behind).1 inside
  | case2 counted =>
      cases behind with
      | nil => rfl
      | cons c behind =>
          -- The escape would take the first character behind the cut.
          have least := (wordLength_bounds reserved escape (counted + 2) behind).1
          simp only [List.cons_append, List.nil_append, wordLength, if_true,
            List.length_singleton] at inside
          omega
  | case3 counted c rest ih =>
      simp only [List.cons_append, wordLength, if_true, List.length_cons] at inside ⊢
      exact ih (by omega)
  | case4 counted c rest notEscape member =>
      rw [List.cons_append, wordLength_of_reserved notEscape member,
        wordLength_of_reserved notEscape member]
  | case5 counted c rest notEscape notMember ih =>
      rw [List.cons_append, wordLength_of_unreserved notEscape notMember,
        wordLength_of_unreserved notEscape notMember] at *
      rw [List.length_cons] at inside
      exact ih (by omega)

end Pattern

namespace Rule

theorem matchLength_le_append (rule : Rule) (kept behind : List Char) :
    rule.matchLength kept ≤ rule.matchLength (kept ++ behind) := by
  cases pattern_eq : rule.pattern with
  | one chars => cases kept <;> simp [matchLength, pattern_eq, Pattern.length]
  | run chars =>
      simp only [matchLength, pattern_eq, Pattern.length]
      rw [List.takeWhile_append]
      split
      · rw [List.length_append]
        omega
      · exact Nat.le_refl _
  | word reserved escape =>
      simp only [matchLength, pattern_eq, Pattern.length]
      exact Pattern.wordLength_le_append behind 0 kept

/-- A rule whose match ends before a cut matches the same without what is behind. -/
theorem matchLength_of_append_le (inside : rule.matchLength (kept ++ behind) ≤ kept.length) :
    rule.matchLength (kept ++ behind) = rule.matchLength kept := by
  cases pattern_eq : rule.pattern with
  | one chars =>
      cases kept with
      | nil => simpa [matchLength, pattern_eq, Pattern.length] using inside
      | cons c kept => simp [matchLength, pattern_eq, Pattern.length]
  | run chars =>
      simp only [matchLength, pattern_eq, Pattern.length] at inside ⊢
      rw [List.takeWhile_append] at inside ⊢
      split at inside
      · next whole =>
          rw [if_pos whole, whole]
          rw [List.length_append] at inside ⊢
          omega
      · next part => rw [if_neg part]
  | word reserved escape =>
      simp only [matchLength, pattern_eq, Pattern.length] at inside ⊢
      exact (Pattern.wordLength_of_append_le behind 0 kept (by omega)).symm

end Rule

/-- The rule whose match ends before a cut is found without what is behind. -/
theorem Lexicon.firstRule?_of_append (nonempty : kept ≠ [])
    (found : lexicon.firstRule? (kept ++ behind) = some rule)
    (inside : rule.matchLength (kept ++ behind) ≤ kept.length) :
    lexicon.firstRule? kept = some rule := by
  have applies := applies_of_firstRule? found
  obtain ⟨c, rest, rfl⟩ := List.exists_cons_of_ne_nil nonempty
  rw [List.cons_append, firstRule?, List.find?_eq_some_iff_append] at found
  obtain ⟨_, earlier, later, rules_eq, refused⟩ := found
  rw [firstRule?, List.find?_eq_some_iff_append]
  refine ⟨?_, earlier, later, rules_eq, fun other member => ?_⟩
  · rw [Rule.applies, ← Rule.matchLength_of_append_le inside]
    exact applies
  · have longer := other.matchLength_le_append (c :: rest) behind
    have none := refused other member
    simp only [Rule.applies, List.cons_append, gt_iff_lt, decide_eq_false_iff_not,
      Bool.not_eq_true', Nat.not_lt, Nat.le_zero] at none longer ⊢
    omega

/-- What takes no more bytes than a text takes no more characters of it. -/
theorem length_le_of_byteCount_take_le {count : Nat} (least : count ≤ (kept ++ behind).length)
    (bytes : byteCount ((kept ++ behind).take count) ≤ byteCount kept) : count ≤ kept.length := by
  by_contra longer
  rw [Nat.not_le] at longer
  rw [List.take_append, List.take_of_length_le (Nat.le_of_lt longer), byteCount_append] at bytes
  have none : byteCount (behind.take (count - kept.length)) = 0 := by omega
  rw [byteCount_eq_zero_iff, List.take_eq_nil_iff] at none
  rw [List.length_append] at least
  rcases none with none | rfl
  · omega
  · rw [List.length_nil] at least
    omega

/-! ## Runs over a part -/

/-- What a token says apart from its place and its gaps. -/
def Token.spelling (token : Token) : Kind × Lexeme × String :=
  (token.kind, token.lexeme, token.text)

theorem Token.Twin.spelling_eq {first second : Token} (twin : first.Twin second) :
    first.spelling = second.spelling := by
  rw [spelling, spelling, twin.kind, twin.lexeme, twin.text]

/-- A token lies on one side of an offset. -/
def Token.Avoids (cut : Nat) (token : Token) : Prop :=
  cut ≤ token.span.start ∨ token.span.stop ≤ cut

/-- Tokens in the same places avoid a cut alike, and say the same behind it. -/
theorem Token.Coincides.behind_cut {first second : List Token} {cut : Nat}
    (pairs : List.Forall₂ Coincides first second) (avoids : ∀ token ∈ second, token.Avoids cut) :
    (∀ token ∈ first, token.Avoids cut) ∧
      (first.filter (cut ≤ ·.span.start)).map spelling =
        (second.filter (cut ≤ ·.span.start)).map spelling := by
  induction pairs with
  | nil => exact ⟨nofun, rfl⟩
  | @cons one other first second coincides _ ih =>
      rw [List.forall_mem_cons] at avoids ⊢
      obtain ⟨behind, same⟩ := ih avoids.2
      refine ⟨⟨?_, behind⟩, ?_⟩
      · rw [Avoids, coincides.span]
        exact avoids.1
      · rw [List.filter_cons, List.filter_cons, coincides.span]
        split
        · rw [List.map_cons, List.map_cons, same, coincides.spelling_eq]
        · exact same

namespace Cursor

variable {cursor other last : Cursor} {size offset : Nat} {tokens : List Token}

/-- What a run reads depends on the text behind the cursor alone. -/
theorem Reads.of_rest_eq (reads : Reads lexicon size cursor tokens last)
    (same : other.rest = cursor.rest) (size' : Nat) :
    ∃ again last', Reads lexicon size' other again last' ∧ last'.rest = last.rest ∧
      again.map Token.spelling = tokens.map Token.spelling := by
  induction reads generalizing other with
  | stop none => exact ⟨[], other, .stop (same ▸ none), same, rfl⟩
  | @token cursor last rule tokens found _ ih =>
      have next_eq : (other.take lexicon size' rule).2.rest =
          (cursor.take lexicon size rule).2.rest := by
        rw [take_next, take_next, same]
        rfl
      obtain ⟨again, last', reads', rest_eq, spelling_eq⟩ := ih next_eq
      refine ⟨_, last', .token (same ▸ found) reads', rest_eq, ?_⟩
      rw [List.map_cons, List.map_cons, spelling_eq]
      congr 1
      simp only [Token.spelling, take, same]
      rfl

/-- A gap may be cut anywhere. -/
theorem skipGap_of_blank (blank : (skipGap lexicon offset skipped).rest = []) (offset' : Nat) :
    (skipGap lexicon offset' kept).rest = (skipGap lexicon offset (skipped ++ kept)).rest ∧
      offset + byteCount skipped ≤ (skipGap lexicon offset (skipped ++ kept)).offset := by
  have all := List.dropWhile_eq_nil_iff.mp blank
  constructor
  · change _ = (skipped ++ kept).dropWhile _
    rw [List.dropWhile_append_of_pos all]
    rfl
  · simp only [skipGap, Lexicon.leadingGap]
    rw [List.takeWhile_append_of_pos all, utf8ByteSize_ofList, byteCount_append]
    omega

theorem skipGap_offset (offset : Nat) (text : List Char) :
    (skipGap lexicon offset text).offset + byteCount (skipGap lexicon offset text).rest =
      offset + byteCount text := by
  have split_eq := congrArg String.utf8ByteSize (@skipGap_split lexicon offset text)
  rw [String.utf8ByteSize_append, utf8ByteSize_ofList, utf8ByteSize_ofList] at split_eq
  change offset + (skipGap lexicon offset text).gap.utf8ByteSize + _ = _
  omega

/-- A token that starts before a cut ends before it, and its rule matches the same
without what is behind the cut. -/
theorem take_before_cut {front : Cursor} {cut : Nat} (nonempty : front.rest ≠ [])
    (cut_eq : cut = front.offset + byteCount front.rest)
    (found : lexicon.firstRule? (front.rest ++ behind) = some rule)
    (avoids : ((front.extend behind).take lexicon size rule).1.Avoids cut) :
    front.offset < cut ∧ (front.extend behind).stopOf rule ≤ cut ∧
      lexicon.firstRule? front.rest = some rule ∧
      rule.matchLength (front.rest ++ behind) = rule.matchLength front.rest ∧
      cut = front.stopOf rule + byteCount (front.rest.drop (rule.matchLength front.rest)) := by
  have starts : front.offset < cut := by
    have some := mt (byteCount_eq_zero_iff front.rest).mp nonempty
    omega
  have stops : (front.extend behind).stopOf rule ≤ cut := by
    rw [Token.Avoids, take_start, take_stop] at avoids
    exact avoids.resolve_left (Nat.not_le_of_lt starts)
  have inside : rule.matchLength (front.rest ++ behind) ≤ front.rest.length := by
    apply length_le_of_byteCount_take_le (rule.matchLength_le _)
    have bytes := stops
    rw [stopOf, utf8ByteSize_ofList, cut_eq] at bytes
    exact Nat.le_of_add_le_add_left bytes
  refine ⟨starts, stops, Lexicon.firstRule?_of_append nonempty found inside,
    Rule.matchLength_of_append_le inside, ?_⟩
  rw [cut_eq, stopOf, utf8ByteSize_ofList, Nat.add_assoc, ← byteCount_append,
    List.take_append_drop]

/-- A text that is cut where no token is cut apart is read as before in front of the
cut. -/
theorem Reads.before_cut (reads : Reads lexicon size cursor tokens last) (ended : last.rest = [])
    (cursor_eq : cursor = skipGap lexicon offset (kept ++ behind)) {cut : Nat}
    (cut_eq : cut = offset + byteCount kept) (avoids : ∀ token ∈ tokens, token.Avoids cut)
    (size' : Nat) :
    ∃ again last', Reads lexicon size' (skipGap lexicon offset kept) again last' ∧
      last'.rest = [] ∧
      List.Forall₂ Token.Coincides again (tokens.filter (·.span.stop ≤ cut)) := by
  induction reads generalizing offset kept with
  | @stop cursor none =>
      have blank : (skipGap lexicon offset kept).rest = [] := by
        rw [cursor_eq] at ended
        have all := List.dropWhile_eq_nil_iff.mp ended
        exact List.dropWhile_eq_nil_iff.mpr fun c member => all c (List.mem_append_left _ member)
      exact ⟨[], _, .of_rest_nil size' blank, blank, .nil⟩
  | @token cursor last rule tokens found reads ih =>
      by_cases blank : (skipGap lexicon offset kept).rest = []
      · -- All tokens lie behind the cut.
        have from_cut := (@skipGap_of_blank lexicon behind kept offset blank offset).2
        rw [← cursor_eq, ← cut_eq] at from_cut
        refine ⟨[], _, .of_rest_nil size' blank, blank, ?_⟩
        rw [List.filter_eq_nil_iff.mpr]
        · exact .nil
        · intro token member
          have within := (Reads.token found reads).within token member
          simp only [decide_eq_true_eq]
          omega
      · rw [skipGap_append offset blank] at cursor_eq
        rw [← skipGap_offset] at cut_eq
        subst cursor_eq
        rw [List.forall_mem_cons] at avoids
        obtain ⟨_, stops, found', same, next_cut_eq⟩ :=
          take_before_cut blank cut_eq found avoids.1
        obtain ⟨coincides, next_eq⟩ := take_extend lexicon size' size same
        obtain ⟨again, last', reads', ended', pairs⟩ := ih ended next_eq next_cut_eq avoids.2
        refine ⟨_, last', .token found' reads', ended', ?_⟩
        rw [List.filter_cons_of_pos]
        · exact .cons coincides pairs
        · rw [take_stop, decide_eq_true_eq]
          exact stops

/-- A text that is cut where no token is cut apart is read as before behind the cut. -/
theorem Reads.behind_cut (reads : Reads lexicon size cursor tokens last) (ended : last.rest = [])
    (cursor_eq : cursor = skipGap lexicon offset (skipped ++ kept)) {cut : Nat}
    (cut_eq : cut = offset + byteCount skipped) (avoids : ∀ token ∈ tokens, token.Avoids cut)
    (size' offset' : Nat) :
    ∃ again last', Reads lexicon size' (skipGap lexicon offset' kept) again last' ∧
      last'.rest = [] ∧
      again.map Token.spelling = (tokens.filter (cut ≤ ·.span.start)).map Token.spelling := by
  induction reads generalizing offset skipped with
  | @stop cursor none =>
      have blank : (skipGap lexicon offset' kept).rest = [] := by
        rw [cursor_eq] at ended
        have all := List.dropWhile_eq_nil_iff.mp ended
        exact List.dropWhile_eq_nil_iff.mpr fun c member => all c (List.mem_append_right _ member)
      exact ⟨[], _, .of_rest_nil size' blank, blank, rfl⟩
  | @token cursor last rule tokens found reads ih =>
      by_cases blank : (skipGap lexicon offset skipped).rest = []
      · -- All tokens lie behind the cut.
        obtain ⟨rest_eq, from_cut⟩ := @skipGap_of_blank lexicon kept skipped offset blank offset'
        rw [← cursor_eq, ← cut_eq] at from_cut
        rw [← cursor_eq] at rest_eq
        have whole := Reads.token found reads
        obtain ⟨again, last', reads', rest_eq', spelling_eq⟩ := whole.of_rest_eq rest_eq size'
        refine ⟨again, last', reads', rest_eq'.trans ended, ?_⟩
        rw [spelling_eq, List.filter_eq_self.mpr]
        intro token member
        rw [decide_eq_true_eq]
        exact Nat.le_trans from_cut (whole.within token member).1
      · rw [skipGap_append offset blank] at cursor_eq
        rw [← skipGap_offset] at cut_eq
        subst cursor_eq
        rw [List.forall_mem_cons] at avoids
        obtain ⟨starts, _, _, same, next_cut_eq⟩ :=
          take_before_cut blank cut_eq found avoids.1
        obtain ⟨_, next_eq⟩ := take_extend lexicon size' size same
        obtain ⟨again, last', reads', ended', spelling_eq⟩ := ih ended next_eq next_cut_eq avoids.2
        refine ⟨again, last', reads', ended', ?_⟩
        rw [spelling_eq, List.filter_cons_of_neg]
        rw [take_start, decide_eq_true_eq]
        exact Nat.not_le_of_lt starts

end Cursor

/-! ## Parts of a source -/

/-- A token starts or ends at an offset, or the text does. -/
def Edge (source : Source) (tokens : List Token) (offset : Nat) : Prop :=
  offset = 0 ∨ offset = source.size ∨
    ∃ token ∈ tokens, offset = token.span.start ∨ offset = token.span.stop

/-- Whether a token lies inside a span. -/
def Token.isInside (span : Span) (token : Token) : Bool :=
  span.start ≤ token.span.start && token.span.stop ≤ span.stop

/-- The part of a source that a span covers, as a source of its own. -/
def Source.part (source : Source) (span : Span) : Source :=
  { source with text := source.slice span }

variable {source : Source} {tokens : List Token} {offset : Nat}

/-- No token is cut apart at an edge. -/
theorem Edge.avoids (edge : Edge source tokens offset)
    (within : ∀ token ∈ tokens, token.span.start < token.span.stop ∧
      token.span.stop ≤ source.size)
    (pairwise : tokens.Pairwise fun first second => first.span.stop ≤ second.span.start) :
    ∀ token ∈ tokens, token.Avoids offset := by
  intro token member
  rcases edge with rfl | rfl | ⟨other, otherMem, edge_eq⟩
  · exact .inl (Nat.zero_le _)
  · exact .inr (within token member).2
  · have apart : token = other ∨ token.span.stop ≤ other.span.start ∨
        other.span.stop ≤ token.span.start := by
      obtain ⟨front, back, rfl⟩ := List.append_of_mem otherMem
      obtain ⟨_, behind, before⟩ := List.pairwise_append.mp pairwise
      rcases List.mem_append.mp member with early | late
      · exact .inr (.inl (before token early other List.mem_cons_self))
      · rcases List.mem_cons.mp late with rfl | later
        · exact .inl rfl
        · exact .inr (.inr ((List.pairwise_cons.mp behind).1 token later))
    have inside := (within other otherMem).1
    have own := (within token member).1
    rw [Token.Avoids]
    rcases apart with rfl | before | behind <;> rcases edge_eq with rfl | rfl <;> omega

/-- A source can be cut at an edge. -/
theorem Edge.holds (edge : Edge source tokens offset)
    (covers : ∀ token ∈ tokens, source.Covers token.span token.text) :
    source.Holds offset "" := by
  rcases edge with rfl | rfl | ⟨token, member, rfl | rfl⟩
  · exact ⟨"", source.text, by simp, rfl⟩
  · exact ⟨source.text, "", by simp, rfl⟩
  · have holds := (covers token member).holds
    rw [← @String.empty_append token.text] at holds
    exact holds.left
  · have holds := (covers token member).holds
    rw [← @String.append_empty token.text] at holds
    rw [(covers token member).stop_eq]
    exact holds.right

/-- The part of a source that a span covers is read without an error, into tokens that say
what those of the whole source do that lie inside of it. -/
def IsReadInside (lexicon : Lexicon) (source : Source) (tokens : List Token) (span : Span) :
    Prop :=
  ∃ again : List Token, tokenize lexicon (source.part span) = again.map .ok ∧
    again.map Token.spelling = (tokens.filter (·.isInside span)).map Token.spelling

/-- A part of a text that starts and ends at edges is read into the tokens inside of
it. -/
theorem tokenize_part (read_eq : tokenize lexicon source = tokens.map .ok) {span : Span}
    (start : Edge source tokens span.start) (stop : Edge source tokens span.stop) :
    IsReadInside lexicon source tokens span := by
  obtain ⟨last, reads, ended⟩ := Cursor.readAll_eq_map_ok_iff.mp read_eq
  have covers := reads.covers (source.skipGap_stands lexicon)
  have within : ∀ token ∈ tokens, token.span.start < token.span.stop ∧
      token.span.stop ≤ source.size :=
    fun token member => ⟨(reads.within token member).2, (covers token member).stop_le_size⟩
  obtain ⟨text, holds, stop_eq⟩ :=
    (start.holds covers).exists_between (stop.holds covers) span.start_le_stop
  have part_eq : (source.part span).text = text := by
    rw [Source.part, Source.slice, stop_eq]
    exact holds.sliceBytes_eq
  obtain ⟨before, behind, text_eq, start_eq⟩ := holds
  rw [utf8ByteSize_eq_byteCount] at start_eq stop_eq
  have cursor_eq : Cursor.skipGap lexicon 0 source.text.toList =
      Cursor.skipGap lexicon 0 ((before.toList ++ text.toList) ++ behind.toList) := by
    rw [text_eq, String.toList_append, String.toList_append]
  obtain ⟨front, frontLast, frontReads, frontEnded, pairs⟩ := reads.before_cut ended cursor_eq
    (by rw [stop_eq, byteCount_append, start_eq, Nat.zero_add])
    (stop.avoids within reads.pairwise) source.size
  obtain ⟨frontAvoids, same⟩ := Token.Coincides.behind_cut pairs fun token member =>
    start.avoids within reads.pairwise token (List.mem_filter.mp member).1
  obtain ⟨again, againLast, againReads, againEnded, spelling_eq⟩ := frontReads.behind_cut
    frontEnded rfl (by rw [start_eq, Nat.zero_add]) frontAvoids (source.part span).size 0
  refine ⟨again, ?_, ?_⟩
  · rw [tokenize, part_eq]
    exact Cursor.readAll_eq_map_ok_iff.mpr ⟨againLast, againReads, againEnded⟩
  · rw [spelling_eq, same, List.filter_filter]
    rfl

end OperatorMarkup
