import OperatorMarkup.Proofs.Except
import OperatorMarkup.Proofs.Token.Fit
import OperatorMarkup.Token.Reading

/-!
# Brackets

Brackets are well nested where every closing one pairs with the last opening one
before it that is still open.  A scan with a stack tells so, and names the
bracket at fault where they are not.
-/

namespace OperatorMarkup

/-- An opening and a closing bracket name each other. -/
def Lexicon.Pairs (lexicon : Lexicon) (opener closer : String) : Prop :=
  (lexicon.closerFor opener).map Char.toString = some closer ∧
    (lexicon.openerFor closer).map Char.toString = some opener

instance (lexicon : Lexicon) (opener closer : String) : Decidable (lexicon.Pairs opener closer) :=
  inferInstanceAs (Decidable (_ ∧ _))

/-- Whether a token is a bracket of the text. -/
def Token.isBracket (token : Token) : Bool :=
  token.lexeme == .opener || token.lexeme == .closer

/-- The brackets of a source in order. -/
def brackets (lexicon : Lexicon) (source : Source) : List Token :=
  ((tokenize lexicon source).filterMap Except.toOption).filter Token.isBracket

/-- Brackets are well nested, and each closing one pairs with its opening one. -/
inductive Nested (lexicon : Lexicon) : List Token → Prop
  /-- There are none. -/
  | nil : Nested lexicon []
  /-- A pair with brackets inside it and behind it. -/
  | pair {opener closer : Token} {inside behind : List Token}
      (opener_eq : opener.lexeme = .opener) (closer_eq : closer.lexeme = .closer)
      (pairs : lexicon.Pairs opener.text closer.text) (inner : Nested lexicon inside)
      (rest : Nested lexicon behind) : Nested lexicon (opener :: inside ++ closer :: behind)

/-- Read a token behind the open brackets, innermost first, or name the bracket at
fault. -/
def bracketStep (lexicon : Lexicon) (opened : List Token) (token : Token) :
    Except Token (List Token) :=
  match token.lexeme with
  | .opener => .ok (token :: opened)
  | .closer =>
      match opened with
      | [] => .error token
      | opener :: outer =>
          if lexicon.Pairs opener.text token.text then .ok outer else .error opener
  | _ => .ok opened

/-- Read some tokens one after the other. -/
def scanBrackets (lexicon : Lexicon) (opened tokens : List Token) : Except Token (List Token) :=
  tokens.foldlM (bracketStep lexicon) opened

/-- The bracket at fault: the one that a scan names, and else the innermost one
that is open at the end. -/
def blame (lexicon : Lexicon) (tokens : List Token) : Option Token :=
  match scanBrackets lexicon [] tokens with
  | .ok opened => opened.head?
  | .error culprit => some culprit

variable {lexicon : Lexicon} {token : Token} {opened tokens : List Token}

/-- A token that opens and closes nothing is no bracket. -/
theorem Token.isBracket_eq_false (plain : token.lexeme.isDelimiter = false) :
    token.isBracket = false := by
  rw [Token.isBracket]
  cases lexeme_eq : token.lexeme <;> rw [lexeme_eq] at plain <;> first | rfl | contradiction

/-! ## The scan -/

theorem scanBrackets_cons (opened : List Token) (token : Token) (tokens : List Token) :
    scanBrackets lexicon opened (token :: tokens) =
      (bracketStep lexicon opened token).bind fun next => scanBrackets lexicon next tokens :=
  rfl

theorem scanBrackets_append (opened first second : List Token) :
    scanBrackets lexicon opened (first ++ second) =
      (scanBrackets lexicon opened first).bind fun next => scanBrackets lexicon next second := by
  simp [scanBrackets, bind]

theorem bracketStep_opener (opener_eq : token.lexeme = .opener) :
    bracketStep lexicon opened token = .ok (token :: opened) := by
  simp [bracketStep, opener_eq]

theorem bracketStep_closer (closer_eq : token.lexeme = .closer) (opener : Token) :
    bracketStep lexicon (opener :: opened) token =
      if lexicon.Pairs opener.text token.text then .ok opened else .error opener := by
  simp [bracketStep, closer_eq]

theorem bracketStep_of_not_isBracket (other : token.isBracket = false) :
    bracketStep lexicon opened token = .ok opened := by
  cases lexeme_eq : token.lexeme <;> simp_all [Token.isBracket, bracketStep]

/-- Only brackets matter to the scan. -/
theorem scanBrackets_filter (opened tokens : List Token) :
    scanBrackets lexicon opened (tokens.filter Token.isBracket) =
      scanBrackets lexicon opened tokens := by
  induction tokens generalizing opened with
  | nil => rfl
  | cons token tokens ih =>
      rw [List.filter_cons]
      split
      · rw [scanBrackets_cons, scanBrackets_cons]
        simp only [ih]
      · next other =>
          rw [ih, scanBrackets_cons, bracketStep_of_not_isBracket (by simpa using other)]
          rfl

/-- What a scan answers speaks of known brackets alone. -/
def AnswersFrom (known : List Token) : Except Token (List Token) → Prop
  | .ok opened => ∀ opener ∈ opened, opener ∈ known
  | .error culprit => culprit ∈ known

theorem AnswersFrom.mono {known more : List Token} {answer : Except Token (List Token)}
    (answers : AnswersFrom known answer) (subset : ∀ bracket ∈ known, bracket ∈ more) :
    AnswersFrom more answer := by
  cases answer with
  | ok opened => exact fun opener member => subset opener (answers opener member)
  | error culprit => exact subset culprit answers

theorem bracketStep_answersFrom (opened : List Token) (token : Token) :
    AnswersFrom (token :: opened) (bracketStep lexicon opened token) := by
  simp only [bracketStep]
  split
  · exact fun opener member => member
  · split
    · exact List.mem_cons_self
    · split
      · exact fun opener member => List.mem_cons_of_mem _ (List.mem_cons_of_mem _ member)
      · exact List.mem_cons_of_mem _ List.mem_cons_self
  · exact fun opener member => List.mem_cons_of_mem _ member

theorem scanBrackets_answersFrom (opened tokens : List Token) :
    AnswersFrom (tokens ++ opened) (scanBrackets lexicon opened tokens) := by
  induction tokens generalizing opened with
  | nil => exact fun opener member => member
  | cons token tokens ih =>
      have step := @bracketStep_answersFrom lexicon opened token
      rw [scanBrackets_cons]
      cases step_eq : bracketStep lexicon opened token with
      | error culprit =>
          rw [step_eq] at step
          rcases List.mem_cons.mp step with rfl | before
          · exact List.mem_cons_self
          · exact List.mem_cons_of_mem _ (List.mem_append_right _ before)
      | ok next =>
          rw [step_eq] at step
          apply (ih next).mono
          intro bracket member
          rcases List.mem_append.mp member with later | inNext
          · exact List.mem_cons_of_mem _ (List.mem_append_left _ later)
          · rcases List.mem_cons.mp (step bracket inNext) with rfl | before
            · exact List.mem_cons_self
            · exact List.mem_cons_of_mem _ (List.mem_append_right _ before)

/-- The bracket at fault is one of those scanned. -/
theorem mem_of_blame {culprit : Token} (blamed : blame lexicon tokens = some culprit) :
    culprit ∈ tokens := by
  have answers := @scanBrackets_answersFrom lexicon [] tokens
  rw [List.append_nil] at answers
  rw [blame] at blamed
  cases scan_eq : scanBrackets lexicon [] tokens with
  | error other =>
      rw [scan_eq] at blamed answers
      cases blamed
      exact answers
  | ok opened =>
      rw [scan_eq] at blamed answers
      exact answers culprit (List.mem_of_head? blamed)

/-! ## Nesting -/

/-- Well nested brackets leave the open ones as they are. -/
theorem Nested.scanBrackets_eq (nested : Nested lexicon tokens) (opened : List Token) :
    scanBrackets lexicon opened tokens = .ok opened := by
  induction nested generalizing opened with
  | nil => rfl
  | @pair opener closer inside behind opener_eq closer_eq pairs _ _ innerIh restIh =>
      rw [List.cons_append, scanBrackets_cons, bracketStep_opener opener_eq]
      change scanBrackets lexicon (opener :: opened) (inside ++ closer :: behind) = _
      rw [scanBrackets_append, innerIh]
      change scanBrackets lexicon (opener :: opened) (closer :: behind) = _
      rw [scanBrackets_cons, bracketStep_closer closer_eq, if_pos pairs]
      exact restIh opened

/-- Brackets close those that are open, innermost first, with well nested ones
between them. -/
def Closes (lexicon : Lexicon) : List Token → List Token → Prop
  | [], tokens => Nested lexicon tokens
  | opener :: outer, tokens =>
      ∃ inside closer behind, tokens = inside ++ closer :: behind ∧ Nested lexicon inside ∧
        closer.lexeme = .closer ∧ lexicon.Pairs opener.text closer.text ∧
        Closes lexicon outer behind

/-- A pair in front of brackets that close the open ones changes nothing. -/
theorem Closes.pair {opener closer : Token} {inside behind : List Token}
    (opener_eq : opener.lexeme = .opener) (closer_eq : closer.lexeme = .closer)
    (pairs : lexicon.Pairs opener.text closer.text) (inner : Nested lexicon inside)
    (closes : Closes lexicon opened behind) :
    Closes lexicon opened (opener :: inside ++ closer :: behind) := by
  cases opened with
  | nil => exact .pair opener_eq closer_eq pairs inner closes
  | cons outer opened =>
      obtain ⟨next, last, rest, rfl, nested, lastCloses⟩ := closes
      refine ⟨opener :: inside ++ closer :: next, last, rest, by simp, ?_, lastCloses⟩
      exact .pair opener_eq closer_eq pairs inner nested

/-- Brackets that a scan reads to the end without any left open close those that
were open. -/
theorem closes_of_scanBrackets (allBrackets : ∀ token ∈ tokens, token.isBracket = true)
    (accepted : scanBrackets lexicon opened tokens = .ok []) : Closes lexicon opened tokens := by
  induction tokens generalizing opened with
  | nil =>
      cases accepted
      exact .nil
  | cons token tokens ih =>
      rw [List.forall_mem_cons] at allBrackets
      rw [scanBrackets_cons] at accepted
      obtain ⟨next, step_eq, rest_eq⟩ := Except.bind_eq_ok_iff.mp accepted
      have rest := ih allBrackets.2 rest_eq
      simp only [Token.isBracket, Bool.or_eq_true, beq_iff_eq] at allBrackets
      rcases allBrackets.1 with opener_eq | closer_eq
      · rw [bracketStep_opener opener_eq] at step_eq
        cases step_eq
        obtain ⟨inside, closer, behind, rfl, inner, closer_eq, pairs, closes⟩ := rest
        exact closes.pair opener_eq closer_eq pairs inner
      · cases opened with
        | nil => simp [bracketStep, closer_eq] at step_eq
        | cons opener outer =>
            rw [bracketStep_closer closer_eq] at step_eq
            split at step_eq
            · next pairs =>
                cases step_eq
                exact ⟨[], token, tokens, rfl, .nil, closer_eq, pairs, rest⟩
            · contradiction

/-- Brackets are well nested exactly where the scan finds none at fault. -/
theorem nested_iff_blame_eq_none (allBrackets : ∀ token ∈ tokens, token.isBracket = true) :
    Nested lexicon tokens ↔ blame lexicon tokens = none := by
  rw [blame]
  constructor
  · intro nested
    rw [nested.scanBrackets_eq []]
    rfl
  · intro blameless
    split at blameless
    · next opened scan_eq =>
        rw [List.head?_eq_none_iff] at blameless
        rw [blameless] at scan_eq
        exact closes_of_scanBrackets allBrackets scan_eq
    · contradiction

end OperatorMarkup
