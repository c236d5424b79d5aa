import OperatorMarkup.Proofs.Token.Indentation

/-!
# Levels across a gap

Indents and dedents lead from one number of open levels to another.  A line opens a level,
joins one or leaves some, and those around it are then the narrower ones, since levels are
the wider the further in they are.
-/

namespace OperatorMarkup

/-- Whether a token makes a change of lines explicit. -/
def Lexeme.isIndentation : Lexeme → Bool
  | indent | dedent | lineBreak => true
  | word | operator | separator | opener | closer | juxtaposition | filler => false

namespace Indentation

/-! ## Views of a stream -/

/-- The tokens of a stream but those that make changes of lines explicit. -/
def texts (tokens : List Token) : List Token :=
  tokens.filter (!·.lexeme.isIndentation)

/-- The number of indents in a stream. -/
def indents (tokens : List Token) : Nat :=
  tokens.countP (·.lexeme == .indent)

/-- The number of dedents in a stream. -/
def dedents (tokens : List Token) : Nat :=
  tokens.countP (·.lexeme == .dedent)

/-- The number of indents that are open behind a stream. -/
def opened (tokens : List Token) : Nat :=
  indents tokens - dedents tokens

/-- Every dedent closes an indent before it, and every indent is closed. -/
structure Balanced (tokens : List Token) : Prop where
  prefixes : ∀ front back, tokens = front ++ back → dedents front ≤ indents front
  settled : indents tokens = dedents tokens

/-- The levels of a stream as a reader finds them. -/
structure Margins where
  /-- Whether the next token of the text opens a level. -/
  awaited : Bool
  /-- The widths of the levels that are open, innermost first. -/
  widths : List Nat
  deriving DecidableEq, Repr

/-- The levels behind a token: a dedent closes one, and the token behind an indent opens one
of its own width. -/
def Margins.read (margins : Margins) (token : Token) : Margins :=
  match token.lexeme with
  | .indent => ⟨true, margins.widths⟩
  | .dedent => ⟨margins.awaited, margins.widths.tail⟩
  | .lineBreak => margins
  | _ => if margins.awaited then ⟨false, token.spaceBefore :: margins.widths⟩ else margins

/-- The levels behind a stream, of which the first token of the text opens the outermost. -/
def margins (tokens : List Token) : Margins :=
  tokens.foldl Margins.read ⟨true, []⟩

/-- The number of brackets open behind some tokens: an opening bracket adds one, and a closing
bracket takes one away where there is one. -/
def depthBehind (tokens : List Token) : Nat :=
  tokens.foldl (fun depth token =>
    match token.lexeme with
    | .opener => depth + 1
    | .closer => depth - 1
    | _ => depth) 0

/-- The token behind some others starts a line outside brackets, where the first one does
so too. -/
structure StartsLine (front : List Token) : Prop where
  outside : depthBehind front = 0
  crosses : ∀ last ∈ front.getLast?, 0 < last.heightAfter

variable {token next : Token} {tokens written front back first second : List Token}
  {floor start middle stop : Nat}

@[simp]
theorem texts_append (first second : List Token) :
    texts (first ++ second) = texts first ++ texts second :=
  List.filter_append ..

theorem texts_cons (plain : token.lexeme.isIndentation = false) (tokens : List Token) :
    texts (token :: tokens) = token :: texts tokens := by
  simp [texts, plain]

@[simp]
theorem indents_append (first second : List Token) :
    indents (first ++ second) = indents first + indents second :=
  List.countP_append ..

@[simp]
theorem dedents_append (first second : List Token) :
    dedents (first ++ second) = dedents first + dedents second :=
  List.countP_append ..

theorem margins_append (first second : List Token) :
    margins (first ++ second) = second.foldl Margins.read (margins first) :=
  List.foldl_append ..

/-- The stage keeps count of the open brackets token by token. -/
theorem depthBehind_eq_foldl (tokens : List Token) : depthBehind tokens = tokens.foldl depthAfter 0 :=
  rfl

theorem depthBehind_concat (tokens : List Token) (token : Token) :
    depthBehind (tokens ++ [token]) = depthAfter (depthBehind tokens) token := by
  simp [depthBehind_eq_foldl]

/-! ## Walks through the levels -/

/-- The indents and dedents of some tokens lead from one number of open levels to another,
and never below a floor. -/
structure Walks (floor start : Nat) (tokens : List Token) (stop : Nat) : Prop where
  above : ∀ front back, tokens = front ++ back → floor + dedents front ≤ start + indents front
  ends : start + indents tokens = stop + dedents tokens

namespace Walks

theorem refl (above : floor ≤ start) : Walks floor start [] start := by
  refine ⟨fun front back split_eq => ?_, rfl⟩
  obtain ⟨rfl, -⟩ := List.append_eq_nil_iff.mp split_eq.symm
  exact above

theorem append (walks : Walks floor start first middle) (next : Walks floor middle second stop) :
    Walks floor start (first ++ second) stop := by
  have turn := walks.ends
  constructor
  · intro front back split_eq
    rcases List.append_eq_append_iff.mp split_eq with ⟨rest, rfl, rfl⟩ | ⟨rest, rfl, rfl⟩
    · have behind := next.above rest back rfl
      rw [indents_append, dedents_append]
      omega
    · exact walks.above front rest rfl
  · have behind := next.ends
    rw [indents_append, dedents_append]
    omega

/-- A single token takes one step. -/
theorem singleton (here : floor ≤ start) (there : floor ≤ stop)
    (ends : start + indents [token] = stop + dedents [token]) : Walks floor start [token] stop := by
  refine ⟨fun front back split_eq => ?_, ends⟩
  rcases List.singleton_eq_append_iff.mp split_eq with ⟨rfl, -⟩ | ⟨rfl, -⟩
  · exact here
  · omega

/-- A token that is neither an indent nor a dedent stays in its level. -/
theorem stay (above : floor ≤ start) (notIndent : token.lexeme ≠ .indent)
    (notDedent : token.lexeme ≠ .dedent) : Walks floor start [token] start :=
  .singleton above above (by simp [indents, dedents, notIndent, notDedent])

/-- Some dedents lead as many levels out. -/
theorem replicate_dedent (dedent : token.lexeme = .dedent) (above : floor ≤ stop) (count : Nat) :
    Walks floor (stop + count) (List.replicate count token) stop := by
  induction count with
  | zero => exact .refl above
  | succ count ih =>
      have step : Walks floor (stop + (count + 1)) [token] (stop + count) :=
        .singleton (by omega) (by omega) (by simp [indents, dedents, dedent]; omega)
      exact step.append ih

/-- A walk that returns to its floor is balanced. -/
theorem balanced (walks : Walks start start tokens start) : Balanced tokens := by
  constructor
  · intro front back split_eq
    have above := walks.above front back split_eq
    omega
  · have ends := walks.ends
    omega

theorem opened_eq (walks : Walks floor 0 tokens stop) : opened tokens = stop := by
  have ends := walks.ends
  rw [opened]
  omega

end Walks

/-! ## Leaving levels -/

namespace Levels

variable {levels : Levels} {lineWidth width : Nat} {enclosing : List Nat}

/-- The widths of the level and of those around it, innermost first. -/
def widths (levels : Levels) : List Nat :=
  levels.width :: levels.enclosing

/-- A line stands in a level where no other than those around it are narrower. -/
structure Carries (levels : Levels) (lineWidth : Nat) : Prop where
  reaches : lineWidth ≤ levels.width
  narrower : levels.widths.countP (· < lineWidth) = levels.enclosing.length

theorem countP_le (within : lineWidth ≤ levels.width) :
    levels.widths.countP (· < lineWidth) ≤ levels.enclosing.length := by
  rw [widths, List.countP_cons_of_neg (by simpa using within)]
  exact List.countP_le_length

/-- What is wider than the innermost level is wider than all of them. -/
theorem lt_of_mem_widths (sorted : levels.widths.Pairwise (· > ·))
    (wider : levels.width < lineWidth) :
    ∀ around ∈ levels.widths, around < lineWidth := by
  intro around member
  rcases List.mem_cons.mp member with rfl | further
  · exact wider
  · exact Nat.lt_trans ((List.pairwise_cons.mp sorted).1 around further) wider

theorem leaveFrom_length (lineWidth width : Nat) (enclosing : List Nat) :
    (leaveFrom lineWidth width enclosing).1 +
      (leaveFrom lineWidth width enclosing).2.enclosing.length = enclosing.length := by
  induction enclosing generalizing width with
  | nil => rfl
  | cons outer enclosing ih =>
      rw [leaveFrom]
      split
      · have rest := ih outer
        simp only [List.length_cons, ← rest]
        omega
      · simp

theorem leave_length (levels : Levels) (lineWidth : Nat) :
    (levels.leave lineWidth).1 + (levels.leave lineWidth).2.enclosing.length =
      levels.enclosing.length :=
  leaveFrom_length lineWidth levels.width levels.enclosing

theorem leaveFrom_widths (lineWidth width : Nat) (enclosing : List Nat) :
    (leaveFrom lineWidth width enclosing).2.widths =
      (width :: enclosing).drop (leaveFrom lineWidth width enclosing).1 := by
  induction enclosing generalizing width with
  | nil => rfl
  | cons outer enclosing ih =>
      rw [leaveFrom]
      split
      · exact ih outer
      · rfl

/-- No level that a line leaves is narrower than it. -/
theorem leaveFrom_countP {bound : Nat} (within : bound ≤ lineWidth) :
    (leaveFrom lineWidth width enclosing).2.widths.countP (· < bound) =
      (width :: enclosing).countP (· < bound) := by
  induction enclosing generalizing width with
  | nil => rfl
  | cons outer enclosing ih =>
      rw [leaveFrom]
      split
      · next left =>
          have wider : ¬ width < bound := by omega
          rw [List.countP_cons_of_neg (by simpa using wider)]
          exact ih
      · rfl

/-- A line leaves as many levels as it takes for those around it to be the narrower ones. -/
theorem leaveFrom_carries (sorted : (width :: enclosing).Pairwise (· > ·))
    (reaches : lineWidth ≤ width) :
    (leaveFrom lineWidth width enclosing).2.Carries lineWidth := by
  induction enclosing generalizing width with
  | nil => exact ⟨reaches, by simpa [leaveFrom, widths] using reaches⟩
  | cons outer enclosing ih =>
      have inner := List.pairwise_cons.mp sorted
      rw [leaveFrom]
      split
      · next left => exact ih inner.2 left.2
      · next stays =>
          -- The line is wider than the next level outside, and so than all of them.
          have narrower : ∀ around ∈ outer :: enclosing, around < lineWidth := by
            intro around member
            have below := inner.1 around member
            rcases List.mem_cons.mp member with rfl | further
            · omega
            · have outside := (List.pairwise_cons.mp inner.2).1 around further
              omega
          refine ⟨reaches, ?_⟩
          change (width :: outer :: enclosing).countP _ = _
          rw [List.countP_cons_of_neg (by simpa using reaches), List.countP_eq_length]
          simpa using narrower

end Levels

/-! ## Gaps -/

/-- What may stand in a gap behind a token. -/
inductive Fills (token : Token) : List Token → Prop
  /-- The step to a deeper line. -/
  | indent : Fills token [inserted token .infixOp .indent]
  /-- The return from some levels, or from none. -/
  | dedents (count : Nat) : Fills token (List.replicate count (inserted token .suffixOp .dedent))
  /-- The return from some levels, or from none, to another line. -/
  | lineBreak (count : Nat) :
      Fills token (List.replicate count (inserted token .suffixOp .dedent) ++
        [inserted token .infixOp .lineBreak])

theorem lineBreakBetween_cases (token next : Token) :
    lineBreakBetween token next = [] ∧
        (token.lineOperator = true ∨ next.lineOperator = true) ∨
      lineBreakBetween token next = [inserted token .infixOp .lineBreak] := by
  rw [lineBreakBetween]
  split
  · next alone => exact .inl ⟨rfl, by simpa using alone⟩
  · exact .inr rfl

/-- What crossing a gap does to the levels, and what it puts into the gap. -/
inductive Crosses (state : State) (next : Token) : Levels → List Token → Prop
  /-- The line goes on. -/
  | flat (level : state.token.heightAfter = 0) : Crosses state next state.levels []
  /-- A line ends next to a bracket around it. -/
  | edge (crosses : 0 < state.token.heightAfter) (inside : 0 < state.depth)
      (edge : state.token.lexeme = .opener ∨ next.lexeme = .closer) :
      Crosses state next state.levels []
  /-- A line ends between brackets. -/
  | inside (crosses : 0 < state.token.heightAfter) (inside : 0 < state.depth) :
      Crosses state next state.levels (lineBreakBetween state.token next)
  /-- The next line is deeper. -/
  | deeper (crosses : 0 < state.token.heightAfter) (outside : state.depth = 0)
      (wider : state.levels.width < next.spaceBefore) :
      Crosses state next (state.levels.enter next.spaceBefore)
        [inserted state.token .infixOp .indent]
  /-- The next line is not deeper. -/
  | outer (crosses : 0 < state.token.heightAfter) (outside : state.depth = 0)
      (reaches : next.spaceBefore ≤ state.levels.width) :
      Crosses state next (state.levels.leave next.spaceBefore).2
        (List.replicate (state.levels.leave next.spaceBefore).1
            (inserted state.token .suffixOp .dedent) ++
          lineBreakBetween state.token next)

theorem cross_crosses (state : State) (next : Token) :
    Crosses state next (cross state next).1 (cross state next).2 := by
  simp only [cross]
  split
  · next level => exact .flat level
  · next crosses =>
      have crosses := Nat.pos_of_ne_zero crosses
      split
      · next inside =>
          split
          · next edge => exact .edge crosses inside edge
          · exact .inside crosses inside
      · next outside =>
          have outside := Nat.eq_zero_of_not_pos outside
          split
          · next wider => exact .deeper crosses outside wider
          · next reaches => exact .outer crosses outside (Nat.le_of_not_lt reaches)

namespace Crosses

variable {state : State} {levels : Levels} {gap : List Token} {bound : Nat}

theorem fills (crosses : Crosses state next levels gap) : Fills state.token gap := by
  cases crosses with
  | flat | edge => exact .dedents 0
  | inside =>
      rcases lineBreakBetween_cases state.token next with ⟨none_eq, -⟩ | some_eq
      · rw [none_eq]
        exact .dedents 0
      · rw [some_eq]
        exact .lineBreak 0
  | deeper => exact .indent
  | outer =>
      rcases lineBreakBetween_cases state.token next with ⟨none_eq, -⟩ | some_eq
      · rw [none_eq, List.append_nil]
        exact .dedents _
      · rw [some_eq]
        exact .lineBreak _

/-- Only a gap with a line end is filled. -/
theorem crosses_of_ne_nil (crosses : Crosses state next levels gap) (filled : gap ≠ []) :
    0 < state.token.heightAfter := by
  cases crosses with
  | flat | edge => exact absurd rfl filled
  | inside crosses | deeper crosses | outer crosses => exact crosses

/-- Levels change outside brackets alone. -/
theorem outside_of_mem (crosses : Crosses state next levels gap) {filler : Token}
    (member : filler ∈ gap) (changes : filler.lexeme = .indent ∨ filler.lexeme = .dedent) :
    state.depth = 0 := by
  cases crosses with
  | flat | edge => exact absurd member List.not_mem_nil
  | inside =>
      rcases lineBreakBetween_cases state.token next with ⟨none_eq, -⟩ | some_eq
      · rw [none_eq] at member
        exact absurd member List.not_mem_nil
      · rw [some_eq, List.mem_singleton] at member
        subst member
        rcases changes with lexeme_eq | lexeme_eq <;> contradiction
  | deeper _ outside | outer _ outside => exact outside

theorem sorted (crosses : Crosses state next levels gap)
    (sorted : state.levels.widths.Pairwise (· > ·)) : levels.widths.Pairwise (· > ·) := by
  cases crosses with
  | flat | edge | inside => exact sorted
  | deeper _ _ wider => exact .cons (Levels.lt_of_mem_widths sorted wider) sorted
  | outer =>
      rw [Levels.leave, Levels.leaveFrom_widths]
      exact sorted.drop

/-- A line outside brackets stands where no other levels than those around it are
narrower. -/
theorem carries (crosses : Crosses state next levels gap)
    (sorted : state.levels.widths.Pairwise (· > ·)) (newLine : 0 < state.token.heightAfter)
    (outside : state.depth = 0) : levels.Carries next.spaceBefore := by
  cases crosses with
  | flat level => omega
  | edge _ inside | inside _ inside => omega
  | deeper _ _ wider =>
      refine ⟨Nat.le_refl _, ?_⟩
      change (next.spaceBefore :: state.levels.widths).countP _ = state.levels.widths.length
      rw [List.countP_cons_of_neg (by simp), List.countP_eq_length]
      simpa using Levels.lt_of_mem_widths sorted wider
  | outer _ _ reaches => exact Levels.leaveFrom_carries sorted reaches

/-- No line changes what levels there are of less than its own width. -/
theorem countP_eq (crosses : Crosses state next levels gap)
    (notNarrower : 0 < state.token.heightAfter → state.depth = 0 → bound ≤ next.spaceBefore) :
    levels.widths.countP (· < bound) = state.levels.widths.countP (· < bound) := by
  cases crosses with
  | flat | edge | inside => rfl
  | deeper newLine outside =>
      have within := notNarrower newLine outside
      change (next.spaceBefore :: state.levels.widths).countP _ = _
      exact List.countP_cons_of_neg (by simpa using within)
  | outer newLine outside => exact Levels.leaveFrom_countP (notNarrower newLine outside)

/-- A level that is at least as wide as some bound stays so up to a narrower line. -/
theorem bound_le_width (crosses : Crosses state next levels gap)
    (sorted : state.levels.widths.Pairwise (· > ·)) (here : bound ≤ state.levels.width)
    (notNarrower : 0 < state.token.heightAfter → state.depth = 0 → bound ≤ next.spaceBefore) :
    bound ≤ levels.width := by
  cases crosses with
  | flat | edge | inside => exact here
  | deeper newLine outside => exact notNarrower newLine outside
  | outer newLine outside reaches =>
      exact Nat.le_trans (notNarrower newLine outside)
        (Levels.leaveFrom_carries sorted reaches).reaches

/-- The indents and dedents in a gap are what the levels change by. -/
theorem walks (crosses : Crosses state next levels gap)
    (here : floor ≤ state.levels.enclosing.length) (there : floor ≤ levels.enclosing.length) :
    Walks floor state.levels.enclosing.length gap levels.enclosing.length := by
  have lineBreak : ∀ {start}, floor ≤ start →
      Walks floor start (lineBreakBetween state.token next) start := by
    intro start above
    rcases lineBreakBetween_cases state.token next with ⟨none_eq, -⟩ | some_eq
    · rw [none_eq]
      exact .refl above
    · rw [some_eq]
      exact .stay above nofun nofun
  cases crosses with
  | flat | edge => exact .refl here
  | inside => exact lineBreak here
  | deeper => exact .singleton here there rfl
  | outer =>
      have counted := state.levels.leave_length next.spaceBefore
      rw [← counted, Nat.add_comm]
      exact (Walks.replicate_dedent rfl there _).append (lineBreak there)

end Crosses

end Indentation

end OperatorMarkup
