import OperatorMarkup.Token

/-!
# Lexicons

A lexicon says which characters are brackets, operators, separators and
whitespace, and which one escapes the next.  Its rules form a table in order of
preference; a reader looks only at the rules filed under the first character.
-/

namespace OperatorMarkup

/-- The character classes that a lexicon is built from. -/
structure CharClasses where
  /-- Opening and closing brackets, in pairs. -/
  brackets : List (Char × Char) := [('[', ']'), ('\x7b', '\x7d')]
  /-- The characters that form operators. -/
  operators : List Char := "+-*/^=%#$@&|!?<>:".toList
  /-- The characters that each form a separator. -/
  separators : List Char := ",;".toList
  /-- The characters between tokens. -/
  whitespace : List Char := " \t\r\n~".toList
  /-- The character that makes the next one part of a word. -/
  escape : Char := '\\'
  deriving DecidableEq, Repr

namespace CharClasses

/-- The opening brackets. -/
def opens (classes : CharClasses) : List Char :=
  classes.brackets.map Prod.fst

/-- The closing brackets. -/
def closes (classes : CharClasses) : List Char :=
  classes.brackets.map Prod.snd

/-- The characters that stand in a word only behind an escape. -/
def reserved (classes : CharClasses) : List Char :=
  classes.opens ++ classes.closes ++ classes.operators ++ classes.separators ++
    classes.whitespace ++ [classes.escape]

end CharClasses

/-- What a rule matches at the start of a text. -/
inductive Pattern where
  /-- One character of a class. -/
  | one (chars : List Char)
  /-- The longest run of characters of a class. -/
  | run (chars : List Char)
  /-- The longest run of unreserved characters and of escaped characters. -/
  | word (reserved : List Char) (escape : Char)
  deriving DecidableEq, Repr

namespace Pattern

/-- The number of characters of a word at the start of a text, added to those
already counted.  An escape takes the next character with it, and so matches
nothing at the end of the text. -/
def wordLength (reserved : List Char) (escape : Char) (counted : Nat) : List Char → Nat
  | [] => counted
  | c :: rest =>
      if c = escape then
        match rest with
        | [] => counted
        | _ :: rest => wordLength reserved escape (counted + 2) rest
      else if reserved.contains c then counted
      else wordLength reserved escape (counted + 1) rest

/-- The number of characters that a pattern matches at the start of a text, none
where it does not match. -/
def length : Pattern → List Char → Nat
  | one _, [] => 0
  | one chars, c :: _ => if chars.contains c then 1 else 0
  | run chars, text => (text.takeWhile chars.contains).length
  | word reserved escape, text => wordLength reserved escape 0 text

end Pattern

/-- One entry of the rule table. -/
structure Rule where
  /-- The kind of the tokens that the rule reads. -/
  kind : Kind
  /-- The lexeme of the tokens that the rule reads. -/
  lexeme : Lexeme
  /-- What the rule matches. -/
  pattern : Pattern
  deriving DecidableEq, Repr

namespace Rule

/-- The number of characters that a rule matches at the start of a text. -/
def matchLength (rule : Rule) (text : List Char) : Nat :=
  rule.pattern.length text

/-- Whether a rule matches at the start of a text. -/
def applies (rule : Rule) (text : List Char) : Bool :=
  rule.matchLength text > 0

end Rule

/-! ## Rule tables -/

/-- The number of the bucket that rules for a character are filed in: one for
each ASCII character, and one for all others together. -/
def bucket (c : Char) : Nat :=
  min c.toNat 128

/-- The number of a rule put behind those filed under a character, unless it is
there already. -/
def fileUnder (number : Nat) (buckets : Nat → List Nat) (c : Char) (place : Nat) : List Nat :=
  let filed := buckets place
  if place = bucket c ∧ number ∉ filed then filed ++ [number] else filed

/-- The characters that a rule is filed under. -/
inductive Trigger where
  /-- The characters of a class. -/
  | among (chars : List Char)
  /-- Every character. -/
  | any
  deriving DecidableEq, Repr

namespace Trigger

/-- Whether a character of a bucket is among those of a trigger. -/
def covers (place : Nat) : Trigger → Bool
  | among chars => chars.any fun c => bucket c == place
  | any => true

/-- The number of a rule filed in the buckets of its characters, one character
after the other. -/
def file (number : Nat) (buckets : Nat → List Nat) : Trigger → Nat → List Nat
  | among chars => chars.foldl (fileUnder number) buckets
  | any => fun place => buckets place ++ [number]

theorem foldl_fileUnder (number : Nat) (chars : List Char) (buckets : Nat → List Nat)
    (place : Nat) :
    chars.foldl (fileUnder number) buckets place =
      buckets place ++
        if number ∉ buckets place ∧ (among chars).covers place then [number] else [] := by
  induction chars generalizing buckets with
  | nil => simp [covers]
  | cons c chars ih =>
      rw [List.foldl_cons, ih]
      by_cases here : place = bucket c
      · subst here
        by_cases filed : number ∈ buckets (bucket c) <;> simp [fileUnder, covers, filed]
      · simp [fileUnder, covers, here, Ne.symm here]

/-- A number that is new to a bucket is filed there once, behind all others, where
the bucket holds a character of the trigger. -/
theorem file_eq {number place : Nat} {buckets : Nat → List Nat}
    (fresh : number ∉ buckets place) (trigger : Trigger) :
    trigger.file number buckets place =
      buckets place ++ if trigger.covers place then [number] else [] := by
  cases trigger with
  | among chars => simp [file, foldl_fileUnder, fresh]
  | any => rfl

end Trigger

/-- A rule with the characters that it is filed under. -/
structure Entry where
  /-- The characters that the rule can start on. -/
  trigger : Trigger
  /-- The rule. -/
  rule : Rule
  deriving DecidableEq, Repr

/-- Rules in order of preference, with the numbers of those filed in each bucket. -/
structure RuleTable where
  /-- The rules, numbered from zero. -/
  rules : List Rule
  /-- The numbers filed in the bucket of a number. -/
  buckets : Nat → List Nat
  lt_length : ∀ place, ∀ number ∈ buckets place, number < rules.length

namespace RuleTable

/-- The table without rules. -/
def empty : RuleTable :=
  ⟨[], fun _ => [], fun _ _ member => absurd member List.not_mem_nil⟩

theorem length_not_mem_buckets (table : RuleTable) (place : Nat) :
    table.rules.length ∉ table.buckets place := fun member =>
  Nat.lt_irrefl _ (table.lt_length place _ member)

/-- A table with one more entry at its end; the rule for a class without
characters is left out. -/
def add (table : RuleTable) (entry : Entry) : RuleTable :=
  if entry.trigger = .among [] then table
  else
    { rules := table.rules ++ [entry.rule]
      buckets := entry.trigger.file table.rules.length table.buckets
      lt_length := by
        intro place number member
        rw [Trigger.file_eq (table.length_not_mem_buckets place), List.mem_append] at member
        rw [List.length_append, List.length_singleton]
        rcases member with filed | added
        · exact Nat.lt_succ_of_lt (table.lt_length place number filed)
        · rw [List.mem_ite_nil_right, List.mem_singleton] at added
          rw [added.2]
          exact Nat.lt_succ_self _ }

/-- The table of some entries, one behind the other. -/
def ofEntries (entries : List Entry) : RuleTable :=
  entries.foldl add empty

/-- The rules filed in a bucket, in the order of their filing. -/
def rulesIn (table : RuleTable) (place : Nat) : List Rule :=
  (table.buckets place).pmap (fun number inside => table.rules.get ⟨number, inside⟩)
    (table.lt_length place)

end RuleTable

/-- Character classes with at least one whitespace character. -/
structure Lexicon extends CharClasses where
  whitespace_ne_nil : whitespace ≠ []

namespace Lexicon

/-- The lexicon of character classes, which needs some whitespace. -/
def ofClasses? (classes : CharClasses) : Option Lexicon :=
  if h : classes.whitespace ≠ [] then some ⟨classes, h⟩ else none

/-- The lexicon of the standard classes. -/
def standard : Lexicon :=
  ⟨{}, by decide⟩

instance : Inhabited Lexicon :=
  ⟨standard⟩

/-- The rules for the classes, in order of preference, each with the characters that
it is filed under. -/
def entries (lexicon : Lexicon) : List Entry :=
  [⟨.among lexicon.opens, ⟨.operator .prefixOp, .opener, .one lexicon.opens⟩⟩,
    ⟨.among lexicon.closes, ⟨.operator .suffixOp, .closer, .one lexicon.closes⟩⟩,
    ⟨.among lexicon.operators, ⟨.operator .ambiguous, .operator, .run lexicon.operators⟩⟩,
    ⟨.among lexicon.separators, ⟨.operator .infixOp, .separator, .one lexicon.separators⟩⟩,
    ⟨.any, ⟨.identifier, .word, .word lexicon.reserved lexicon.escape⟩⟩]

/-- The rule table of a lexicon. -/
def table (lexicon : Lexicon) : RuleTable :=
  .ofEntries lexicon.entries

/-- The rules in order of preference; a class without characters has none. -/
def rules (lexicon : Lexicon) : List Rule :=
  lexicon.table.rules

/-- The rules filed under a character, in order of preference. -/
def rulesFor (lexicon : Lexicon) (c : Char) : List Rule :=
  lexicon.table.rulesIn (bucket c)

/-- The first rule filed under the first character of a text that matches at its
start. -/
def firstRule? (lexicon : Lexicon) : List Char → Option Rule
  | [] => none
  | c :: rest => (lexicon.rulesFor c).find? (·.applies (c :: rest))

theorem ne_nil_of_firstRule? {lexicon : Lexicon} {text : List Char} {rule : Rule}
    (found : lexicon.firstRule? text = some rule) : text ≠ [] := by
  rintro rfl
  simp [firstRule?] at found

theorem applies_of_firstRule? {lexicon : Lexicon} {text : List Char} {rule : Rule}
    (found : lexicon.firstRule? text = some rule) : rule.applies text = true := by
  cases text with
  | nil => simp [firstRule?] at found
  | cons c rest =>
      rw [firstRule?] at found
      have applies := List.find?_some found
      exact applies

/-- Whether a character is whitespace. -/
def isWhitespace (lexicon : Lexicon) (c : Char) : Bool :=
  lexicon.whitespace.contains c

/-- The whitespace at the start of a text. -/
def leadingGap (lexicon : Lexicon) (text : List Char) : List Char :=
  text.takeWhile lexicon.isWhitespace

/-- The closing bracket of the first pair that a one-character text opens. -/
def closerFor (lexicon : Lexicon) (opener : String) : Option Char :=
  match opener.toList with
  | [c] => (lexicon.brackets.find? (·.1 == c)).map Prod.snd
  | _ => none

/-- The opening bracket of the first pair that a one-character text closes. -/
def openerFor (lexicon : Lexicon) (closer : String) : Option Char :=
  match closer.toList with
  | [c] => (lexicon.brackets.find? (·.2 == c)).map Prod.fst
  | _ => none

end Lexicon

end OperatorMarkup
