/-!
# Answers that may fail

When a mapped or chained answer is a success, and when two answers that are mapped
or chained in step agree or are related.
-/

namespace OperatorMarkup

namespace Except

variable {ε α β : Type}

theorem map_eq_ok_iff {f : α → β} {answer : Except ε α} {result : β} :
    answer.map f = .ok result ↔ ∃ value, answer = .ok value ∧ f value = result := by
  cases answer <;> simp [Except.map]

theorem map_eq_error_iff {f : α → β} {answer : Except ε α} {error : ε} :
    answer.map f = .error error ↔ answer = .error error := by
  cases answer <;> simp [Except.map]

theorem bind_eq_ok_iff {f : α → Except ε β} {answer : Except ε α} {result : β} :
    answer.bind f = .ok result ↔ ∃ value, answer = .ok value ∧ f value = .ok result := by
  cases answer <;> simp [Except.bind]

/-- Two answers agree where both succeed with related results, or both fail in
the same way. -/
def Agree (related : α → β → Prop) : Except ε α → Except ε β → Prop
  | .ok first, .ok second => related first second
  | .error first, .error second => first = second
  | _, _ => False

variable {α' β' : Type} {related : α → β → Prop} {related' : α' → β' → Prop}

theorem Agree.bind {first : Except ε α} {second : Except ε β} {f : α → Except ε α'}
    {g : β → Except ε β'} (agree : Agree related first second)
    (next : ∀ x y, first = .ok x → related x y → Agree related' (f x) (g y)) :
    Agree related' (first.bind f) (second.bind g) := by
  cases first with
  | error error =>
      cases second with
      | error other => exact agree
      | ok y => exact agree.elim
  | ok x =>
      cases second with
      | error error => exact agree.elim
      | ok y => exact next x y rfl agree

theorem Agree.map {first : Except ε α} {second : Except ε β} {f : α → α'} {g : β → β'}
    (agree : Agree related first second) (next : ∀ x y, related x y → related' (f x) (g y)) :
    Agree related' (first.map f) (second.map g) := by
  cases first with
  | error error =>
      cases second with
      | error other => exact agree
      | ok y => exact agree.elim
  | ok x =>
      cases second with
      | error error => exact agree.elim
      | ok y => exact next x y agree

theorem agree_ok_iff {value : α} {second : Except ε β} :
    Agree related (.ok value) second ↔ ∃ result, second = .ok result ∧ related value result := by
  cases second <;> simp [Agree]

theorem agree_error_iff {error : ε} {second : Except ε β} :
    Agree related (.error error) second ↔ second = .error error := by
  cases second <;> simp [Agree, eq_comm]

/-! ## Answers with errors of their own -/

variable {ε' : Type}

/-- Two answers are related where both succeed with related results, or both fail
with related errors. -/
inductive Related (errors : ε → ε' → Prop) (results : α → β → Prop) :
    Except ε α → Except ε' β → Prop
  | ok {first : α} {second : β} (related : results first second) :
      Related errors results (.ok first) (.ok second)
  | error {first : ε} {second : ε'} (related : errors first second) :
      Related errors results (.error first) (.error second)

namespace Related

/-- Where equality is asked for, an answer is related to itself. -/
theorem refl (answer : Except ε α) : Related Eq Eq answer answer := by
  cases answer with
  | ok value => exact .ok rfl
  | error error => exact .error rfl

variable {errors : ε → ε' → Prop} {results : α → β → Prop} {results' : α' → β' → Prop}

theorem bind {first : Except ε α} {second : Except ε' β} {f : α → Except ε α'}
    {g : β → Except ε' β'} (answers : Related errors results first second)
    (next : ∀ x y, results x y → Related errors results' (f x) (g y)) :
    Related errors results' (first.bind f) (second.bind g) := by
  cases answers with
  | ok related => exact next _ _ related
  | error related => exact .error related

theorem map {first : Except ε α} {second : Except ε' β} {f : α → α'} {g : β → β'}
    (answers : Related errors results first second)
    (next : ∀ x y, results x y → results' (f x) (g y)) :
    Related errors results' (first.map f) (second.map g) := by
  cases answers with
  | ok related => exact .ok (next _ _ related)
  | error related => exact .error related

theorem imp {errors' : ε → ε' → Prop} {results' : α → β → Prop} {first : Except ε α}
    {second : Except ε' β} (answers : Related errors results first second)
    (errorsImp : ∀ x y, errors x y → errors' x y)
    (resultsImp : ∀ x y, results x y → results' x y) : Related errors' results' first second := by
  cases answers with
  | ok related => exact .ok (resultsImp _ _ related)
  | error related => exact .error (errorsImp _ _ related)

theorem exists_of_ok {value : α} {second : Except ε' β}
    (answers : Related errors results (.ok value) second) :
    ∃ result, second = .ok result ∧ results value result := by
  cases answers with
  | ok related => exact ⟨_, rfl, related⟩

end Related

end Except

end OperatorMarkup
