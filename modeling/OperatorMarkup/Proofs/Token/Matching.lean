import OperatorMarkup.Proofs.Token.Brackets

/-!
# Matched brackets

An opening bracket is matched with the first closing one behind it at its own depth.  A part of
a stream in which all brackets are matched does not change what is matched around it.
-/

namespace OperatorMarkup

/-- The closing bracket at the given depth below the start of a stream. -/
def closerOf (depth : Nat) : List Token → Option Token
  | [] => none
  | token :: rest =>
      match token.lexeme, depth with
      | .opener, depth => closerOf (depth + 1) rest
      | .closer, 0 => some token
      | .closer, depth + 1 => closerOf depth rest
      | _, depth => closerOf depth rest

/-- The matched brackets of a stream, in the order of the opening ones. -/
def matchedPairs : List Token → List (Token × Token)
  | [] => []
  | token :: rest =>
      if token.lexeme = .opener then
        ((closerOf 0 rest).map (token, ·)).toList ++ matchedPairs rest
      else matchedPairs rest

variable {lexicon : Lexicon} {token opener closer : Token} {depth : Nat}
  {tokens first second inside rest : List Token}

theorem closerOf_opener (opener_eq : token.lexeme = .opener) :
    closerOf depth (token :: rest) = closerOf (depth + 1) rest := by
  simp only [closerOf, opener_eq]

theorem closerOf_closer (closer_eq : token.lexeme = .closer) :
    closerOf 0 (token :: rest) = some token ∧
      closerOf (depth + 1) (token :: rest) = closerOf depth rest := by
  constructor <;> simp only [closerOf, closer_eq]

theorem matchedPairs_closer (closer_eq : token.lexeme = .closer) :
    matchedPairs (token :: rest) = matchedPairs rest := by
  rw [matchedPairs, if_neg (by rw [closer_eq]; decide)]

/-- All brackets of a part of a stream are matched within it. -/
structure Closed (tokens : List Token) : Prop where
  closerOf_eq : ∀ depth rest, closerOf depth (tokens ++ rest) = closerOf depth rest
  pairs_eq : ∀ rest, matchedPairs (tokens ++ rest) = matchedPairs tokens ++ matchedPairs rest

namespace Closed

theorem nil : Closed [] :=
  ⟨fun _ _ => rfl, fun _ => rfl⟩

theorem append (firstClosed : Closed first) (secondClosed : Closed second) :
    Closed (first ++ second) := by
  constructor
  · intro depth rest
    rw [List.append_assoc, firstClosed.closerOf_eq, secondClosed.closerOf_eq]
  · intro rest
    rw [List.append_assoc, firstClosed.pairs_eq, secondClosed.pairs_eq, firstClosed.pairs_eq,
      List.append_assoc]

/-- Brackets around a part whose brackets are matched are matched with each other. -/
theorem matchedPairs_eq (closed : Closed inside) (opener_eq : opener.lexeme = .opener)
    (closer_eq : closer.lexeme = .closer) (rest : List Token) :
    matchedPairs (opener :: inside ++ closer :: rest) =
      (opener, closer) :: matchedPairs inside ++ matchedPairs rest := by
  rw [List.cons_append, matchedPairs, if_pos opener_eq, closed.closerOf_eq,
    (@closerOf_closer _ 0 _ closer_eq).1, closed.pairs_eq, matchedPairs_closer closer_eq]
  rfl

theorem enclose (closed : Closed inside) (opener_eq : opener.lexeme = .opener)
    (closer_eq : closer.lexeme = .closer) : Closed (opener :: inside ++ [closer]) := by
  constructor
  · intro depth rest
    rw [List.append_assoc, List.cons_append, closerOf_opener opener_eq, closed.closerOf_eq,
      List.singleton_append, (closerOf_closer closer_eq).2]
  · intro rest
    rw [List.append_assoc, List.singleton_append, closed.matchedPairs_eq opener_eq closer_eq,
      closed.matchedPairs_eq opener_eq closer_eq]
    simp [matchedPairs]

theorem flatMap {α : Type} {view : α → List Token} {values : List α}
    (each : ∀ value ∈ values, Closed (view value)) :
    Closed (values.flatMap view) ∧ matchedPairs (values.flatMap view) =
      values.flatMap fun value => matchedPairs (view value) := by
  induction values with
  | nil => exact ⟨.nil, rfl⟩
  | cons value values ih =>
      rw [List.forall_mem_cons] at each
      obtain ⟨closed, pairs_eq⟩ := ih each.2
      rw [List.flatMap_cons, List.flatMap_cons, each.1.pairs_eq, pairs_eq]
      exact ⟨each.1.append closed, rfl⟩

end Closed

/-- Where brackets are well nested, each of them is matched. -/
theorem Nested.closed (nested : Nested lexicon tokens) :
    Closed tokens ∧ tokens.length = 2 * (matchedPairs tokens).length := by
  induction nested with
  | nil => exact ⟨.nil, rfl⟩
  | @pair opener closer inside behind opener_eq closer_eq _ _ _ inner rest =>
      constructor
      · rw [List.append_cons]
        exact (inner.1.enclose opener_eq closer_eq).append rest.1
      · rw [inner.1.matchedPairs_eq opener_eq closer_eq]
        simp only [List.length_append, List.length_cons, inner.2, rest.2]
        omega

end OperatorMarkup
