import OperatorMarkup.Error

/-!
# Stages of a token stream

A stage reads the items of a stream one at a time and writes tokens for each.
The first error, its own or one that it reads, is the last item it writes; what
it has written by then depends on nothing behind the error.
-/

namespace OperatorMarkup

/-- A stage with its states. -/
structure Stage (σ : Type) where
  /-- The state before the first token. -/
  start : σ
  /-- The next state and the tokens to write, or the error that ends the stage. -/
  step : σ → Token → Except Error (σ × List Token)
  /-- The tokens to write at the end of the stream, or an error in their place. -/
  finish : σ → Except Error (List Token)

namespace Stage

/-- How far a stage has come. -/
structure Progress (σ : Type) where
  /-- The items written so far, latest first. -/
  written : List Item
  /-- The state, until the stage has ended. -/
  state : Option σ

variable {σ : Type}

/-- Read one item. -/
def feed (stage : Stage σ) (progress : Progress σ) (item : Item) : Progress σ :=
  match progress.state with
  | none => progress
  | some state =>
      match item.bind (stage.step state) with
      | .ok (next, tokens) => ⟨(tokens.map .ok).reverse ++ progress.written, some next⟩
      | .error error => ⟨.error error :: progress.written, none⟩

/-- What is written once the stream has ended. -/
def close (stage : Stage σ) (progress : Progress σ) : List Item :=
  match progress.state with
  | none => progress.written.reverse
  | some state =>
      match stage.finish state with
      | .ok tokens => progress.written.reverse ++ tokens.map .ok
      | .error error => progress.written.reverse ++ [.error error]

/-- All that a stage writes for a stream from a state on. -/
def outputFrom (stage : Stage σ) (state : σ) (items : List Item) : List Item :=
  stage.close (items.foldl stage.feed ⟨[], some state⟩)

/-- All that a stage writes for a stream. -/
def run (stage : Stage σ) (items : List Item) : List Item :=
  stage.outputFrom stage.start items

/-! ## Reading item by item -/

@[simp]
theorem feed_ended (stage : Stage σ) (written : List Item) (item : Item) :
    stage.feed ⟨written, none⟩ item = ⟨written, none⟩ :=
  rfl

@[simp]
theorem feed_error (stage : Stage σ) (written : List Item) (state : σ) (error : Error) :
    stage.feed ⟨written, some state⟩ (.error error) = ⟨.error error :: written, none⟩ :=
  rfl

@[simp]
theorem foldl_feed_ended (stage : Stage σ) (written : List Item) (items : List Item) :
    items.foldl stage.feed ⟨written, none⟩ = ⟨written, none⟩ := by
  induction items with
  | nil => rfl
  | cons item items ih => simpa using ih

/-- One item is read alike whatever has been written. -/
theorem feed_written (stage : Stage σ) (written : List Item) (state : Option σ) (item : Item) :
    stage.feed ⟨written, state⟩ item =
      ⟨(stage.feed ⟨[], state⟩ item).written ++ written, (stage.feed ⟨[], state⟩ item).state⟩ := by
  cases state with
  | none => rfl
  | some state =>
      simp only [feed]
      split <;> simp

/-- Items are read alike whatever has been written. -/
theorem foldl_feed_written (stage : Stage σ) (written : List Item) (state : Option σ)
    (items : List Item) :
    items.foldl stage.feed ⟨written, state⟩ =
      ⟨(items.foldl stage.feed ⟨[], state⟩).written ++ written,
        (items.foldl stage.feed ⟨[], state⟩).state⟩ := by
  induction items generalizing written state with
  | nil => rfl
  | cons item items ih =>
      rw [List.foldl_cons, List.foldl_cons, feed_written, ih,
        ih (stage.feed ⟨[], state⟩ item).written]
      simp

/-- What has been written comes before all that is written later. -/
theorem close_foldl_feed (stage : Stage σ) (written : List Item) (state : σ)
    (items : List Item) :
    stage.close (items.foldl stage.feed ⟨written, some state⟩) =
      written.reverse ++ stage.outputFrom state items := by
  rw [foldl_feed_written, outputFrom]
  simp only [close]
  split
  · simp_all
  · split <;> simp_all

theorem outputFrom_nil (stage : Stage σ) (state : σ) :
    stage.outputFrom state [] =
      match stage.finish state with
      | .ok tokens => tokens.map .ok
      | .error error => [.error error] := by
  simp only [outputFrom, close, List.foldl_nil]
  split <;> simp

@[simp]
theorem outputFrom_error (stage : Stage σ) (state : σ) (error : Error) (items : List Item) :
    stage.outputFrom state (.error error :: items) = [.error error] := by
  simp [outputFrom, close]

theorem outputFrom_ok (stage : Stage σ) (state : σ) (token : Token) (items : List Item) :
    stage.outputFrom state (.ok token :: items) =
      match stage.step state token with
      | .ok (next, tokens) => tokens.map .ok ++ stage.outputFrom next items
      | .error error => [.error error] := by
  rw [outputFrom, List.foldl_cons, feed]
  simp only [Except.bind]
  split
  · rw [close_foldl_feed]
    simp_all
  · simp_all [close]

end Stage

end OperatorMarkup
