import OperatorMarkup.Error
import OperatorMarkup.Lexicon

/-!
# Reading tokens

A text is read from front to back.  Each token takes what the first matching
rule matches behind the gap, and the gap behind it is the gap before the next
one.  Reading stops at a character where no rule matches.
-/

namespace OperatorMarkup

/-- A place between two tokens: the text still to be read, and the gap skipped
just before it. -/
structure Cursor where
  /-- The offset of the text still to be read. -/
  offset : Nat
  /-- The gap before it. -/
  gap : String
  /-- The text still to be read, which does not start with whitespace. -/
  rest : List Char
  deriving DecidableEq, Repr

namespace Cursor

/-- The cursor behind the gap at the start of a text. -/
def skipGap (lexicon : Lexicon) (offset : Nat) (text : List Char) : Cursor :=
  let gap := String.ofList (lexicon.leadingGap text)
  { offset := offset + gap.utf8ByteSize
    gap := gap
    rest := text.dropWhile lexicon.isWhitespace }

/-- The token that a rule reads at a cursor, with the cursor behind it. -/
def take (lexicon : Lexicon) (textSize : Nat) (cursor : Cursor) (rule : Rule) :
    Token × Cursor :=
  let count := rule.matchLength cursor.rest
  let text := String.ofList (cursor.rest.take count)
  let stop := cursor.offset + text.utf8ByteSize
  let next := skipGap lexicon stop (cursor.rest.drop count)
  (Token.read textSize rule.kind rule.lexeme text cursor.gap next.gap
    (.between cursor.offset stop), next)

theorem length_dropWhile_le (p : Char → Bool) (text : List Char) :
    (text.dropWhile p).length ≤ text.length := by
  induction text with
  | nil => simp
  | cons c rest ih =>
      rw [List.dropWhile_cons]
      split
      · exact Nat.le_succ_of_le ih
      · exact Nat.le_refl _

/-- A rule that matches leaves less to be read. -/
theorem take_rest_length_lt (lexicon : Lexicon) (textSize : Nat) (cursor : Cursor)
    (rule : Rule) (nonempty : cursor.rest ≠ []) (applies : rule.applies cursor.rest = true) :
    (cursor.take lexicon textSize rule).2.rest.length < cursor.rest.length := by
  have shorter := length_dropWhile_le lexicon.isWhitespace
    (cursor.rest.drop (rule.matchLength cursor.rest))
  have some := List.length_pos_iff.mpr nonempty
  simp only [Rule.applies, decide_eq_true_eq, gt_iff_lt] at applies
  simp only [List.length_drop] at shorter
  simp only [take, skipGap]
  omega

/-- The next token, with the cursor behind it, where a rule matches. -/
def next? (lexicon : Lexicon) (textSize : Nat) (cursor : Cursor) : Option (Token × Cursor) :=
  (lexicon.firstRule? cursor.rest).map (cursor.take lexicon textSize)

/-- Each token leaves less to be read. -/
theorem next?_rest_length_lt {lexicon : Lexicon} {textSize : Nat} {cursor next : Cursor}
    {token : Token} (step : cursor.next? lexicon textSize = some (token, next)) :
    next.rest.length < cursor.rest.length := by
  obtain ⟨rule, found, taken⟩ := Option.map_eq_some_iff.mp step
  have shorter := cursor.take_rest_length_lt lexicon textSize rule
    (Lexicon.ne_nil_of_firstRule? found) (Lexicon.applies_of_firstRule? found)
  rwa [taken] at shorter

/-- What is written where no rule matches: nothing at the end of the text, and
else an error at the next character. -/
def ending (cursor : Cursor) : List Item :=
  match cursor.rest with
  | [] => []
  | c :: _ => [.error (.noToken (.between cursor.offset (cursor.offset + c.utf8Size)))]

/-- The items read from a cursor on, behind those already written, latest
first. -/
def readOnto (lexicon : Lexicon) (textSize : Nat) (written : List Item) (cursor : Cursor) :
    List Item :=
  match _step : cursor.next? lexicon textSize with
  | none => written.reverse ++ cursor.ending
  | some (token, next) => readOnto lexicon textSize (.ok token :: written) next
termination_by cursor.rest.length
decreasing_by exact next?_rest_length_lt _step

/-- The items read from a cursor on. -/
def readAll (lexicon : Lexicon) (textSize : Nat) (cursor : Cursor) : List Item :=
  readOnto lexicon textSize [] cursor

/-! ## Reading token by token -/

/-- What has been written does not change what is read next. -/
theorem readOnto_eq_append (lexicon : Lexicon) (textSize : Nat) (written : List Item)
    (cursor : Cursor) :
    readOnto lexicon textSize written cursor =
      written.reverse ++ readAll lexicon textSize cursor := by
  induction remaining : cursor.rest.length using Nat.strongRecOn generalizing written cursor with
  | ind remaining ih =>
      rw [readAll, readOnto, readOnto]
      split
      · simp
      · next token next step =>
          have shorter := next?_rest_length_lt step
          rw [ih _ (remaining ▸ shorter) _ next rfl, ih _ (remaining ▸ shorter) [.ok token] next rfl]
          simp

theorem readAll_of_next?_none {lexicon : Lexicon} {textSize : Nat} {cursor : Cursor}
    (stop : cursor.next? lexicon textSize = none) :
    readAll lexicon textSize cursor = cursor.ending := by
  rw [readAll, readOnto]
  split <;> simp_all

theorem readAll_of_next?_some {lexicon : Lexicon} {textSize : Nat} {cursor next : Cursor}
    {token : Token} (step : cursor.next? lexicon textSize = some (token, next)) :
    readAll lexicon textSize cursor = .ok token :: readAll lexicon textSize next := by
  rw [readAll, readOnto]
  split
  · simp_all
  · next found =>
      rw [step] at found
      cases found
      rw [readOnto_eq_append]
      simp

end Cursor

/-- The tokens of a source, up to the first character that starts none. -/
def tokenize (lexicon : Lexicon) (source : Source) : List Item :=
  (Cursor.skipGap lexicon 0 source.text.toList).readAll lexicon source.size

end OperatorMarkup
