import Mathlib
import OperatorMarkup.Proofs.Token.Crossing
import OperatorMarkup.Token.Reading

/-!
# Levels of a lowered stream

The indents and dedents of a lowered stream are balanced, and the tokens between them are
those that were read.  As many indents are open at a line as levels around it are narrower,
so lines of one width with no narrower line between them stand in the same level.
-/

namespace OperatorMarkup

namespace Indentation

variable {token next : Token} {tokens written front back first : List Token} {floor : Nat}

/-! ## Runs -/

/-- A token is read behind the one of a state. -/
def State.read (state : State) (next : Token) : State :=
  ⟨next, (cross state next).1, depthAfter state.depth next⟩

theorem texts_cross (state : State) (next : Token) : texts (cross state next).2 = [] := by
  apply List.filter_eq_nil_iff.mpr
  intro filler member
  obtain ⟨fixity, lexeme, rfl, ⟨rfl, -⟩ | ⟨rfl, -⟩ | ⟨rfl, -⟩⟩ :=
    isInserted_cross state next filler member <;>
    exact Bool.false_ne_true

/-- A token of the text opens a level where one is awaited. -/
theorem Margins.read_text (plain : token.lexeme.isIndentation = false) (margins : Margins) :
    margins.read token =
      if margins.awaited then ⟨false, token.spaceBefore :: margins.widths⟩ else margins := by
  rw [Margins.read]
  cases lexeme_eq : token.lexeme <;> rw [lexeme_eq] at plain <;> first | rfl | contradiction

theorem foldl_read_replicate (dedent : token.lexeme = .dedent) (awaited : Bool) (widths : List Nat)
    (count : Nat) :
    (List.replicate count token).foldl Margins.read ⟨awaited, widths⟩ =
      ⟨awaited, widths.drop count⟩ := by
  induction count generalizing widths with
  | zero => rfl
  | succ count ih =>
      have step : Margins.read ⟨awaited, widths⟩ token = ⟨awaited, widths.tail⟩ := by
        rw [Margins.read, dedent]
      rw [List.replicate_succ, List.foldl_cons, step, ih, List.drop_tail]

/-- Reading a gap and the token behind it, one finds the levels that the gap leads to. -/
theorem Crosses.margins_eq {state : State} {levels : Levels} {gap : List Token}
    (crosses : Crosses state next levels gap) (plain : next.lexeme.isIndentation = false) :
    (gap ++ [next]).foldl Margins.read ⟨false, state.levels.widths⟩ = ⟨false, levels.widths⟩ := by
  have lineBreak : ∀ margins,
      (lineBreakBetween state.token next).foldl Margins.read margins = margins := by
    intro margins
    rcases lineBreakBetween_cases state.token next with ⟨none_eq, -⟩ | some_eq
    · rw [none_eq]
      rfl
    · rw [some_eq]
      rfl
  rw [List.foldl_append, List.foldl_cons, List.foldl_nil, Margins.read_text plain]
  cases crosses with
  | flat | edge => rfl
  | inside => rw [lineBreak]; rfl
  | deeper => rfl
  | outer =>
      rw [List.foldl_append, foldl_read_replicate rfl, lineBreak, Levels.leave,
        Levels.leaveFrom_widths]
      rfl

/-- What a state knows of the tokens that were read up to its own and of what was written
before that one. -/
structure Tracks (front before : List Token) (state : State) : Prop where
  plain : state.token.lexeme.isIndentation = false
  texts_eq : texts before = front
  depth_eq : depthBehind (front ++ [state.token]) = state.depth
  margins_eq : margins (before ++ [state.token]) = ⟨false, state.levels.widths⟩
  sorted : state.levels.widths.Pairwise (· > ·)
  walks : Walks 0 0 before state.levels.enclosing.length
  carries : StartsLine front → state.levels.Carries state.token.spaceBefore

namespace Tracks

variable {before : List Token} {state : State}

theorem initial (plain : token.lexeme.isIndentation = false) :
    Tracks [] [] ⟨token, ⟨token.spaceBefore, []⟩, depthAfter 0 token⟩ where
  plain := plain
  texts_eq := rfl
  depth_eq := rfl
  margins_eq := Margins.read_text plain _
  sorted := List.pairwise_singleton _ _
  walks := .refl (Nat.le_refl _)
  carries _ := ⟨Nat.le_refl _, by simp [Levels.widths]⟩

theorem stay (tracks : Tracks front before state) (above : floor ≤ state.levels.enclosing.length) :
    Walks floor state.levels.enclosing.length [state.token] state.levels.enclosing.length := by
  have plain := tracks.plain
  refine .stay above (fun lexeme_eq => ?_) (fun lexeme_eq => ?_) <;>
    rw [lexeme_eq] at plain <;> contradiction

theorem step (tracks : Tracks front before state) (plain : next.lexeme.isIndentation = false) :
    Tracks (front ++ [state.token]) (before ++ [state.token] ++ (cross state next).2)
      (state.read next) := by
  have crosses := cross_crosses state next
  constructor
  · exact plain
  · rw [texts_append, texts_append, tracks.texts_eq, texts_cons tracks.plain, texts_cross,
      List.append_nil]
    rfl
  · rw [depthBehind_concat, tracks.depth_eq]
    rfl
  · change margins (before ++ [state.token] ++ (cross state next).2 ++ [next]) = _
    rw [List.append_assoc, margins_append, tracks.margins_eq]
    exact crosses.margins_eq plain
  · exact crosses.sorted tracks.sorted
  · rw [List.append_assoc]
    exact tracks.walks.append
      ((tracks.stay (Nat.zero_le _)).append (crosses.walks (Nat.zero_le _) (Nat.zero_le _)))
  · intro starts
    refine crosses.carries tracks.sorted ?_ ?_
    · exact starts.crosses state.token (by simp)
    · rw [← tracks.depth_eq]
      exact starts.outside

end Tracks

/-- What has been read and written where a state is reached. -/
inductive Follows : List Token → List Token → Option State → Prop
  /-- Nothing is read. -/
  | start : Follows [] [] none
  /-- A token is read behind some others. -/
  | behind {state : State} {front before : List Token} (tracks : Tracks front before state) :
      Follows (front ++ [state.token]) (before ++ [state.token]) (some state)

theorem Follows.step {state : Option State} (follows : Follows tokens written state)
    (plain : next.lexeme.isIndentation = false) :
    Follows (tokens ++ [next]) (written ++ (Indentation.step state next).2)
      (Indentation.step state next).1 := by
  cases follows with
  | start => exact .behind (.initial plain)
  | behind tracks =>
      have later := Follows.behind (tracks.step plain)
      rw [List.append_assoc (_ ++ _)] at later
      exact later

/-- A state knows what has been read and written before it is reached. -/
theorem follows_of_reaches (plain : ∀ token ∈ tokens, token.lexeme.isIndentation = false)
    {reached : Option State} (reaches : stage.Reaches none tokens written reached) :
    Follows tokens written reached := by
  refine reaches.invariant Follows ?_ .start plain
  intro read written token state next now follows plain step_eq
  have later := follows.step plain
  rw [Except.ok.inj step_eq] at later
  exact later

/-- Behind the tokens read, the state knows the last of them. -/
theorem tracks_of_reaches (plain : ∀ other ∈ front ++ [token], other.lexeme.isIndentation = false)
    {reached : Option State} (reaches : stage.Reaches none (front ++ [token]) written reached) :
    ∃ before levels depth, written = before ++ [token] ∧
      reached = some ⟨token, levels, depth⟩ ∧ Tracks front before ⟨token, levels, depth⟩ := by
  generalize read_eq : front ++ [token] = read at plain reaches
  cases follows_of_reaches plain reaches with
  | start => simp at read_eq
  | @behind state _ before tracks =>
      obtain ⟨rfl, token_eq⟩ := List.append_inj' read_eq rfl
      obtain rfl := List.singleton_inj.mp token_eq
      exact ⟨before, state.levels, state.depth, rfl, rfl, tracks⟩

/-- Up to each token that is read, the stage has come to a state that knows it. -/
theorem exists_tracks (plain : ∀ other ∈ tokens, other.lexeme.isIndentation = false)
    (emits : stage.Emits none tokens none written none)
    (tokens_eq : tokens = front ++ token :: back) :
    ∃ before levels depth behind, written = before ++ token :: behind ∧
      Tracks front before ⟨token, levels, depth⟩ ∧
      stage.Emits (some ⟨token, levels, depth⟩) back none behind none := by
  rw [tokens_eq, List.append_cons] at emits plain
  rw [List.forall_mem_append] at plain
  obtain ⟨reached, started, behind, rfl, reaches, emits⟩ := emits.split
  obtain ⟨before, levels, depth, rfl, rfl, tracks⟩ := tracks_of_reaches plain.1 reaches
  exact ⟨before, levels, depth, behind, (List.append_cons _ _ _).symm, tracks, emits⟩

/-- Behind the last token come as many dedents as there are levels around its line. -/
theorem emits_nil {state : State} (emits : stage.Emits (some state) [] none written none) :
    written =
      List.replicate state.levels.enclosing.length (inserted state.token .suffixOp .dedent) := by
  cases emits with
  | finished finish_eq => exact (Except.ok.inj finish_eq).symm

/-- Behind a token comes what fills the gap, and then the next one. -/
theorem emits_cons {state : State}
    (emits : stage.Emits (some state) (next :: back) none written none) :
    ∃ behind, written = (cross state next).2 ++ next :: behind ∧
      stage.Emits (some (state.read next)) back none behind none := by
  cases emits with
  | @step _ _ _ _ _ later _ _ step_eq rest =>
      cases Except.ok.inj step_eq
      exact ⟨later, (List.append_cons _ _ _).symm, rest⟩

/-! ## A lowered stream -/

/-- A gap between two tokens of a text, where its indentation is made explicit. -/
structure Bridges (front : List Token) (token next : Token)
    (back before gap behind : List Token) : Prop where
  before_eq : texts before = front
  behind_eq : texts behind = back
  fills : Fills token gap
  crosses : gap ≠ [] → 0 < token.heightAfter
  outside : ∀ filler ∈ gap, filler.lexeme = .indent ∨ filler.lexeme = .dedent →
    depthBehind (front ++ [token]) = 0
  opened_eq : 0 < token.heightAfter → depthBehind (front ++ [token]) = 0 →
    opened (before ++ token :: gap) =
      (margins (before ++ [token])).widths.countP (· < next.spaceBefore)

/-- A stream that makes the indentation of some tokens explicit. -/
structure Levelled (tokens written : List Token) : Prop where
  texts_eq : texts written = tokens
  head_eq : written.head? = tokens.head?
  balanced : Balanced written
  /-- Every gap is filled for itself. -/
  gaps : ∀ front token next back, tokens = front ++ token :: next :: back →
    ∃ before gap behind, written = before ++ token :: gap ++ next :: behind ∧
      Bridges front token next back before gap behind
  /-- Behind the last token there are dedents alone. -/
  ending : ∀ front last, tokens = front ++ [last] →
    ∃ before count, written =
      before ++ last :: List.replicate count (inserted last .suffixOp .dedent)
  /-- Lines of one width, with no narrower line between them, stand in one level. -/
  siblings : ∀ front first middle second back,
    tokens = front ++ first :: middle ++ second :: back →
    StartsLine front → StartsLine (front ++ first :: middle) →
    first.spaceBefore = second.spaceBefore →
    (∀ inner other rest, middle = inner ++ other :: rest →
      StartsLine (front ++ first :: inner) → first.spaceBefore ≤ other.spaceBefore) →
    ∃ before between behind, written = before ++ first :: between ++ second :: behind ∧
      texts before = front ∧ texts between = middle ∧ texts behind = back ∧ Balanced between

theorem emits_head (emits : stage.Emits none tokens none written none) :
    written.head? = tokens.head? := by
  cases emits with
  | finished finish_eq => rw [← Except.ok.inj finish_eq]; rfl
  | step step_eq rest => cases Except.ok.inj step_eq; rfl

/-- A line that is not narrower than some bound keeps the levels that are. -/
theorem Tracks.keeps {bound : Nat} {state : State} {before : List Token}
    (tracks : Tracks front before state) (within : bound ≤ state.levels.width)
    (notNarrower : StartsLine (front ++ [state.token]) → bound ≤ next.spaceBefore) :
    bound ≤ (cross state next).1.width ∧
      (cross state next).1.widths.countP (· < bound) = state.levels.widths.countP (· < bound) ∧
      Walks (state.levels.widths.countP (· < bound)) state.levels.enclosing.length
        (cross state next).2 (cross state next).1.enclosing.length := by
  have crosses := cross_crosses state next
  have notNarrower : 0 < state.token.heightAfter → state.depth = 0 → bound ≤ next.spaceBefore :=
    fun newLine outside => notNarrower ⟨tracks.depth_eq.trans outside, by simpa using newLine⟩
  have within' := crosses.bound_le_width tracks.sorted within notNarrower
  have kept := crosses.countP_eq notNarrower
  refine ⟨within', kept, crosses.walks (Levels.countP_le within) ?_⟩
  rw [← kept]
  exact Levels.countP_le within'

/-- Between lines that are not narrower than some bound, the levels that are narrower than it
stay as they are. -/
theorem exists_walks {bound : Nat} {state : State} {before : List Token}
    (tracks : Tracks front before state) (within : bound ≤ state.levels.width)
    (plain : ∀ other ∈ first ++ [next], other.lexeme.isIndentation = false)
    (notNarrower : ∀ inner other rest, first = inner ++ other :: rest →
      StartsLine (front ++ state.token :: inner) → bound ≤ other.spaceBefore)
    (nextNotNarrower : bound ≤ next.spaceBefore)
    (emits : stage.Emits (some state) (first ++ next :: back) none written none) :
    ∃ between levels depth behind, written = between ++ next :: behind ∧
      Tracks (front ++ state.token :: first) (before ++ state.token :: between)
        ⟨next, levels, depth⟩ ∧
      levels.widths.countP (· < bound) = state.levels.widths.countP (· < bound) ∧
      Walks (state.levels.widths.countP (· < bound)) state.levels.enclosing.length between
        levels.enclosing.length := by
  -- No line in between leaves a level that is narrower than the bound, so the number of those
  -- is the floor of the walk from each token on.
  induction first generalizing front before state written with
  | nil =>
      obtain ⟨behind, rfl, -⟩ := emits_cons emits
      obtain ⟨-, kept, walks⟩ := tracks.keeps within fun _ => nextNotNarrower
      have later := tracks.step (plain next (by simp))
      rw [← List.append_cons] at later
      exact ⟨_, _, _, behind, rfl, later, kept, walks⟩
  | cons token first ih =>
      obtain ⟨behind, rfl, rest⟩ := emits_cons emits
      obtain ⟨within', kept, walks⟩ := tracks.keeps within (notNarrower [] token first rfl)
      rw [List.cons_append, List.forall_mem_cons] at plain
      have here := tracks.step plain.1
      obtain ⟨between, levels, depth, behind, rfl, later, kept', walks'⟩ := ih here within' plain.2
        (fun inner other rest split_eq starts =>
          notNarrower (token :: inner) other rest (congrArg (token :: ·) split_eq)
            (by simpa [State.read] using starts)) rest
      have stay := here.stay (Nat.le_trans (Nat.le_of_eq kept.symm) (Levels.countP_le within'))
      refine ⟨(cross state token).2 ++ token :: between, levels, depth, behind, by simp, ?_,
        kept'.trans kept, ?_⟩
      · simpa [State.read] using later
      · change Walks _ _ (_ ++ ([token] ++ between)) _
        rw [State.read, kept] at walks'
        exact walks.append (stay.append walks')

section Written

variable (plain : ∀ other ∈ tokens, other.lexeme.isIndentation = false)
  (emits : stage.Emits none tokens none written none)

include plain emits

/-- A lowered stream is empty, or ends in the dedents behind its last token. -/
theorem exists_last : tokens = [] ∧ written = [] ∨
    ∃ front last before levels depth, tokens = front ++ [last] ∧
      Tracks front before ⟨last, levels, depth⟩ ∧ written = before ++ last ::
        List.replicate levels.enclosing.length (inserted last .suffixOp .dedent) := by
  rcases List.eq_nil_or_concat tokens with rfl | ⟨front, last, tokens_eq⟩
  · cases emits with
    | finished finish_eq => exact .inl ⟨rfl, (Except.ok.inj finish_eq).symm⟩
  · rw [List.concat_eq_append] at tokens_eq
    obtain ⟨before, levels, depth, behind, rfl, tracks, emits⟩ :=
      exists_tracks plain emits tokens_eq
    exact .inr ⟨front, last, before, levels, depth, tokens_eq, tracks, by rw [emits_nil emits]⟩

theorem emits_texts : texts written = tokens := by
  have kept : texts written = texts tokens := by
    refine emits_filter ?_ emits
    rintro token filler ⟨fixity, lexeme, rfl, ⟨rfl, _⟩ | ⟨rfl, _⟩ | ⟨rfl, _⟩⟩ <;> rfl
  rw [kept, texts, List.filter_eq_self]
  intro token member
  rw [plain token member]
  rfl

theorem emits_balanced : Balanced written := by
  rcases exists_last plain emits with
    ⟨rfl, rfl⟩ | ⟨front, last, before, levels, depth, rfl, tracks, rfl⟩
  · exact (Walks.refl (Nat.le_refl 0)).balanced
  · have dedent_eq : (inserted last .suffixOp .dedent).lexeme = .dedent := rfl
    have dedents := Walks.replicate_dedent dedent_eq (Nat.le_refl 0) levels.enclosing.length
    rw [Nat.zero_add] at dedents
    exact (tracks.walks.append ((tracks.stay (Nat.zero_le _)).append dedents)).balanced

theorem exists_bridges {last : Token} (tokens_eq : tokens = front ++ last :: next :: back) :
    ∃ before gap behind, written = before ++ last :: gap ++ next :: behind ∧
      Bridges front last next back before gap behind := by
  have texts_eq := emits_texts plain emits
  obtain ⟨before, levels, depth, behind, rfl, tracks, emits⟩ := exists_tracks plain emits tokens_eq
  obtain ⟨behind, rfl, -⟩ := emits_cons emits
  have crosses := cross_crosses ⟨last, levels, depth⟩ next
  have later := tracks.step (plain next (by simp [tokens_eq]))
  refine ⟨before, _, behind, (List.append_assoc _ (_ :: _) _).symm, tracks.texts_eq, ?_,
    crosses.fills, crosses.crosses_of_ne_nil, ?_, ?_⟩
  · rw [tokens_eq, texts_append, tracks.texts_eq, texts_cons tracks.plain, texts_append,
      texts_cross, texts_cons (show next.lexeme.isIndentation = false from later.plain)] at texts_eq
    simpa using texts_eq
  · intro filler member changes
    rw [tracks.depth_eq]
    exact crosses.outside_of_mem member changes
  · intro newLine outside
    rw [tracks.depth_eq] at outside
    have carries := crosses.carries tracks.sorted newLine outside
    have kept := crosses.countP_eq fun _ _ => Nat.le_refl next.spaceBefore
    rw [List.append_cons, later.walks.opened_eq, tracks.margins_eq]
    exact carries.narrower.symm.trans kept

theorem exists_dedents {last : Token} (tokens_eq : tokens = front ++ [last]) :
    ∃ before count,
      written = before ++ last :: List.replicate count (inserted last .suffixOp .dedent) := by
  obtain ⟨before, levels, depth, behind, rfl, tracks, emits⟩ := exists_tracks plain emits tokens_eq
  exact ⟨before, _, by rw [emits_nil emits]⟩

theorem exists_balanced {middle : List Token} {left right : Token}
    (tokens_eq : tokens = front ++ left :: middle ++ right :: back)
    (leftStarts : StartsLine front) (rightStarts : StartsLine (front ++ left :: middle))
    (width_eq : left.spaceBefore = right.spaceBefore)
    (notNarrower : ∀ inner other rest, middle = inner ++ other :: rest →
      StartsLine (front ++ left :: inner) → left.spaceBefore ≤ other.spaceBefore) :
    ∃ before between behind, written = before ++ left :: between ++ right :: behind ∧
      texts before = front ∧ texts between = middle ∧ texts behind = back ∧
      Balanced between := by
  have texts_eq := emits_texts plain emits
  have inside : ∀ other ∈ middle ++ [right], other.lexeme.isIndentation = false := by
    intro other member
    apply plain
    rw [tokens_eq, List.append_cons _ right]
    exact List.mem_append_left _ (by simp at member ⊢; exact .inr (.inr member))
  rw [tokens_eq, List.append_assoc] at emits plain
  obtain ⟨before, levels, depth, behind, rfl, tracks, emits⟩ := exists_tracks plain emits rfl
  have carries := tracks.carries leftStarts
  obtain ⟨between, levels', depth', behind, rfl, later, kept, walks⟩ :=
    exists_walks tracks carries.reaches inside notNarrower (Nat.le_of_eq width_eq) emits
  have carries' := later.carries rightStarts
  -- Both lines stand in as many levels as there are narrower ones, and those are the same.
  have here_eq : levels.widths.countP (· < left.spaceBefore) = levels.enclosing.length :=
    carries.narrower
  have there_eq : levels'.widths.countP (· < left.spaceBefore) = levels'.enclosing.length := by
    rw [width_eq]
    exact carries'.narrower
  rw [there_eq, here_eq] at kept
  rw [here_eq, kept] at walks
  have between_eq : texts between = middle := by
    have later_eq := later.texts_eq
    rw [texts_append, tracks.texts_eq, texts_cons tracks.plain] at later_eq
    simpa using later_eq
  have behind_eq : texts behind = back := by
    rw [tokens_eq, texts_append, tracks.texts_eq, texts_cons tracks.plain, texts_append,
      between_eq, texts_cons (show right.lexeme.isIndentation = false from later.plain)] at texts_eq
    simpa using texts_eq
  exact ⟨before, between, behind, by simp, tracks.texts_eq, between_eq, behind_eq, walks.balanced⟩

end Written

/-- A stream whose indentation is implicit is lowered without an error.  Its tokens are kept,
its levels are balanced, and at every line as many are open as those around it that are
narrower. -/
theorem lowerIndentation_levelled
    (plain : ∀ token ∈ tokens, token.lexeme.isIndentation = false) :
    ∃ written, lowerIndentation (tokens.map .ok) = written.map .ok ∧ Levelled tokens written := by
  obtain ⟨written, ending, emits, output_eq⟩ := stage.exists_emits none tokens none
  obtain rfl := stage_inserts.ending_eq emits
  rw [stream_none, stream_none] at output_eq
  refine ⟨written, output_eq, emits_texts plain emits, emits_head emits, emits_balanced plain emits,
    ?_, ?_, ?_⟩
  · exact fun _ _ _ _ => exists_bridges plain emits
  · exact fun _ _ => exists_dedents plain emits
  · exact fun _ _ _ _ _ => exists_balanced plain emits

/-- A line that is deeper, one that is less deep without joining a line before, and one that
goes back to the first. -/
def steppedTokens : List Token :=
  (tokenize .standard { text := "a\n   b\n c\nd" }).filterMap Except.toOption

theorem lowerIndentation_stepped : (∀ token ∈ steppedTokens, token.lexeme.isIndentation = false) ∧
    ∃ written, lowerIndentation (steppedTokens.map .ok) = written.map .ok ∧
      Levelled steppedTokens written := by
  have none : steppedTokens.all (!·.lexeme.isIndentation) = true := by cbv
  have plain : ∀ token ∈ steppedTokens, token.lexeme.isIndentation = false := by
    simpa using none
  exact ⟨plain, lowerIndentation_levelled plain⟩

end Indentation

end OperatorMarkup
