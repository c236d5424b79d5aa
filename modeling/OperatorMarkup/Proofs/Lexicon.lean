import OperatorMarkup.Lexicon

/-!
# The rule table

What an entry adds to a table and to each bucket of it is said once; the rules and
the buckets of a whole table follow by induction over the entries.  Where every rule
is filed under the characters that it can start on, the bucket of the first character
holds all that a text can match, so looking into the bucket finds the rule that
looking through the whole table finds.
-/

namespace OperatorMarkup

namespace RuleTable

/-! ## What an entry adds -/

theorem rules_add (table : RuleTable) (entry : Entry) :
    (table.add entry).rules =
      table.rules ++ if entry.trigger = .among [] then [] else [entry.rule] := by
  by_cases unused : entry.trigger = .among [] <;> simp [add, unused]

/-- The number of a new rule goes behind all others of the buckets that its trigger covers. -/
theorem buckets_add (table : RuleTable) (entry : Entry) (place : Nat) :
    (table.add entry).buckets place =
      table.buckets place ++ if entry.trigger.covers place then [table.rules.length] else [] := by
  by_cases unused : entry.trigger = .among []
  · simp [add, unused, Trigger.covers]
  · rw [add, if_neg unused]
    exact Trigger.file_eq (table.length_not_mem_buckets place) entry.trigger

/-- The rules of a bucket are those that its numbers stand for in the table. -/
theorem map_some_rulesIn (table : RuleTable) (place : Nat) :
    (table.rulesIn place).map some = (table.buckets place).map (table.rules[·]?) := by
  calc
    (table.rulesIn place).map some =
        (table.buckets place).pmap (fun number _ => table.rules[number]?)
          (table.lt_length place) := by
      rw [rulesIn, List.map_pmap]
      apply List.pmap_congr_left
      intro number _ inside _
      exact (List.getElem?_eq_getElem inside).symm
    _ = (table.buckets place).map (table.rules[·]?) := by
      rw [List.pmap_eq_map]

theorem rulesIn_add (table : RuleTable) (entry : Entry) (place : Nat) :
    (table.add entry).rulesIn place =
      table.rulesIn place ++ if entry.trigger.covers place then [entry.rule] else [] := by
  have earlier : (table.buckets place).map ((table.add entry).rules[·]?) =
      (table.buckets place).map (table.rules[·]?) := by
    apply List.map_congr_left
    intro number member
    rw [rules_add]
    exact List.getElem?_append_left (table.lt_length place number member)
  rw [← List.map_inj_right fun _ _ => Option.some.inj, map_some_rulesIn, buckets_add,
    List.map_append, earlier, List.map_append, map_some_rulesIn]
  congr 1
  split
  · next covered =>
      have used : entry.trigger ≠ .among [] := by
        intro unused
        simp [unused, Trigger.covers] at covered
      simp [rules_add, used]
  · rfl

/-! ## The table of some entries -/

theorem rules_foldl_add (entries : List Entry) (table : RuleTable) :
    (entries.foldl add table).rules =
      table.rules ++ (entries.filter (·.trigger ≠ .among [])).map Entry.rule := by
  induction entries generalizing table with
  | nil => simp
  | cons entry entries ih =>
      rw [List.foldl_cons, ih, rules_add, List.append_assoc, List.filter_cons]
      by_cases unused : entry.trigger = .among [] <;> simp [unused]

theorem rulesIn_foldl_add (entries : List Entry) (table : RuleTable) (place : Nat) :
    (entries.foldl add table).rulesIn place =
      table.rulesIn place ++ (entries.filter (·.trigger.covers place)).map Entry.rule := by
  induction entries generalizing table with
  | nil => simp
  | cons entry entries ih =>
      rw [List.foldl_cons, ih, rulesIn_add, List.append_assoc, List.filter_cons]
      split <;> simp

/-- Numbers are filed in order, so none comes twice. -/
theorem pairwise_buckets_foldl_add (entries : List Entry) {table : RuleTable} {place : Nat}
    (ordered : (table.buckets place).Pairwise (· < ·)) :
    ((entries.foldl add table).buckets place).Pairwise (· < ·) := by
  induction entries generalizing table with
  | nil => exact ordered
  | cons entry entries ih =>
      apply ih
      rw [buckets_add, List.pairwise_append]
      refine ⟨ordered, by split <;> simp, ?_⟩
      intro number member last added
      rw [List.mem_ite_nil_right, List.mem_singleton] at added
      rw [added.2]
      exact table.lt_length place number member

theorem rules_ofEntries (entries : List Entry) :
    (ofEntries entries).rules = (entries.filter (·.trigger ≠ .among [])).map Entry.rule := by
  rw [ofEntries, rules_foldl_add]
  rfl

theorem rulesIn_ofEntries (entries : List Entry) (place : Nat) :
    (ofEntries entries).rulesIn place =
      (entries.filter (·.trigger.covers place)).map Entry.rule := by
  rw [ofEntries, rulesIn_foldl_add]
  rfl

end RuleTable

/-! ## Where a rule can start -/

/-- The characters that a pattern can start on. -/
def Pattern.trigger : Pattern → Trigger
  | one chars | run chars => .among chars
  | word _ _ => .any

variable {lexicon : Lexicon} {rule : Rule} {c : Char} {rest : List Char}

/-- A rule that matches at the start of a text can start on the first character of it. -/
theorem Rule.covers_of_applies (applies : rule.applies (c :: rest) = true) :
    rule.pattern.trigger.covers (bucket c) = true := by
  simp only [Rule.applies, matchLength, decide_eq_true_eq, gt_iff_lt] at applies
  cases pattern_eq : rule.pattern with
  | one chars =>
      rw [pattern_eq, Pattern.length] at applies
      split at applies
      · next member => exact List.any_eq_true.mpr ⟨c, List.elem_iff.mp member, beq_self_eq_true _⟩
      · contradiction
  | run chars =>
      rw [pattern_eq, Pattern.length, List.takeWhile_cons] at applies
      split at applies
      · next member => exact List.any_eq_true.mpr ⟨c, List.elem_iff.mp member, beq_self_eq_true _⟩
      · contradiction
  | word => rfl

namespace Lexicon

theorem trigger_of_mem_entries {entry : Entry} (member : entry ∈ lexicon.entries) :
    entry.trigger = entry.rule.pattern.trigger := by
  simp only [entries, List.mem_cons, List.not_mem_nil, or_false] at member
  rcases member with rfl | rfl | rfl | rfl | rfl <;> rfl

/-- The table holds the rules of all classes with characters. -/
theorem rules_eq (lexicon : Lexicon) :
    lexicon.rules =
      (if lexicon.brackets.isEmpty then [] else
        [⟨.operator .prefixOp, .opener, .one lexicon.opens⟩,
          ⟨.operator .suffixOp, .closer, .one lexicon.closes⟩]) ++
      (if lexicon.operators.isEmpty then [] else
        [⟨.operator .ambiguous, .operator, .run lexicon.operators⟩]) ++
      (if lexicon.separators.isEmpty then [] else
        [⟨.operator .infixOp, .separator, .one lexicon.separators⟩]) ++
      [⟨.identifier, .word, .word lexicon.reserved lexicon.escape⟩] := by
  rw [rules, table, RuleTable.rules_ofEntries]
  cases brackets : lexicon.brackets <;> cases operators : lexicon.operators <;>
    cases separators : lexicon.separators <;>
      simp [entries, CharClasses.opens, CharClasses.closes, brackets, operators, separators]

/-- A bucket holds the rules that can start on one of its characters. -/
theorem rulesFor_eq (lexicon : Lexicon) (c : Char) :
    lexicon.rulesFor c = lexicon.rules.filter (·.pattern.trigger.covers (bucket c)) := by
  rw [rulesFor, rules, table, RuleTable.rulesIn_ofEntries, RuleTable.rules_ofEntries,
    List.filter_map, List.filter_filter]
  congr 1
  apply List.filter_congr
  intro entry member
  rw [Function.comp_apply, ← trigger_of_mem_entries member]
  by_cases unused : entry.trigger = .among [] <;> simp [unused, Trigger.covers]

/-- The first rule that matches is found in the bucket of the first character. -/
theorem firstRule?_cons (lexicon : Lexicon) (c : Char) (rest : List Char) :
    lexicon.firstRule? (c :: rest) = lexicon.rules.find? (·.applies (c :: rest)) := by
  rw [firstRule?, rulesFor_eq, List.find?_filter]
  congr 1
  funext rule
  cases applies : rule.applies (c :: rest) with
  | false => simp
  | true => simp [Rule.covers_of_applies applies]

end Lexicon

/-! ## Looking through the table -/

namespace Rule

/-- The first rule of a list that matches at the start of a text, with the number of
characters that it matches. -/
def scan (text : List Char) : List Rule → Option (Rule × Nat)
  | [] => none
  | rule :: rules =>
      match rule.matchLength text with
      | 0 => scan text rules
      | count + 1 => some (rule, count + 1)

theorem scan_eq (text : List Char) (rules : List Rule) :
    scan text rules =
      (rules.find? (·.applies text)).map fun rule => (rule, rule.matchLength text) := by
  induction rules with
  | nil => rfl
  | cons rule rules ih =>
      rw [scan, List.find?_cons, applies]
      split
      · next none => simp [none, ih]
      · next count some => simp [some]

end Rule

/-- A text is read by the rule that looking through the whole table finds first, over as many
characters, although only the rules of one bucket are tried.  These are tried in the order of the
table, none of them twice. -/
theorem Lexicon.buckets_agree_with_table (lexicon : Lexicon) (c : Char) (rest : List Char) :
    (lexicon.firstRule? (c :: rest)).map (fun rule => (rule, rule.matchLength (c :: rest))) =
        Rule.scan (c :: rest) lexicon.rules ∧
      (lexicon.table.buckets (bucket c)).Pairwise (· < ·) ∧ (lexicon.rulesFor c).Nodup := by
  refine ⟨?_, ?_, ?_⟩
  · rw [firstRule?_cons, Rule.scan_eq]
  · exact RuleTable.pairwise_buckets_foldl_add _ List.Pairwise.nil
  · have rules_nodup : (lexicon.entries.map Entry.rule).Nodup := by
      simp [entries]
    rw [rulesFor, table, RuleTable.rulesIn_ofEntries]
    exact rules_nodup.sublist (List.filter_sublist.map _)

end OperatorMarkup
