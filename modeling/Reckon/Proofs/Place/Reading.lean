/-
  Where reading fails.

  * `SyntaxProblem.shown?` is the piece of text that a problem shows;
  * `Marks x place shown`: the error `x` is at a place, and the text that it shows,
    if it shows one, is `shown`;
  * `State.marks_step` and `State.marks_finish`: the error of a token marks this
    token, and the error of the end marks the end;
  * `State.marks_run`: so does the error of a whole reading, with or without a
    limit.
-/
import Reckon.Proofs.Limit

namespace Reckon

/-- The piece of text that a problem shows. -/
def SyntaxProblem.shown? : SyntaxProblem → Option String
  | malformedNumber text | unknownCharacter text => some text
  | expectedToken _ found | mismatchedParen found | invalidFactor found | trailingInput found =>
    some found
  | unexpectedEnd | nestingTooDeep _ => none

/-- An error is at a place, and shows no other text than this one. -/
structure Marks (x : SyntaxError) (place : Span) (shown : String) : Prop where
  span : x.span = place
  shown : ∀ w ∈ x.problem.shown?, w = shown

namespace Reader.State

variable {limit : Option Nat} {s s' : State} {t : Token} {ts : List Token} {x : SyntaxError}
  {place : Span}

theorem marks_checkDepth {depth : Nat} (h : checkDepth limit depth place = .error x)
    (shown : String) : Marks x place shown := by
  unfold checkDepth at h
  split at h
  · cases h
  · split at h <;> cases h
    exact ⟨rfl, nofun⟩

theorem marks_enter (h : s.enter limit place = .error x) (shown : String) :
    Marks x place shown := by
  obtain ⟨mode, σ⟩ := s
  cases mode with
  | argument => exact marks_checkDepth h shown
  | factor | name _ | complete _ => cases h

theorem marks_checked (h : checked limit place s = .error x) (shown : String) :
    Marks x place shown := by
  obtain ⟨mode, σ⟩ := s
  cases mode with
  | factor =>
    rw [checked] at h
    cases hd : checkDepth limit (depth σ) place with
    | error y =>
      rw [hd] at h
      cases h
      exact marks_checkDepth hd shown
    | ok u =>
      rw [hd] at h
      cases h
  | argument | name _ | complete _ => cases h

theorem marks_step_none (h : s.step none t = .error x) : Marks x t.span t.shown := by
  obtain ⟨mode, σ⟩ := s
  cases mode with
  | factor | argument =>
    simp only [step, beginFactor] at h
    split at h
    any_goals cases h
    split at h <;> cases h
    exact ⟨rfl, by simp [SyntaxProblem.shown?]⟩
  | name f =>
    simp only [step] at h
    split at h <;> cases h
    exact ⟨rfl, by simp [SyntaxProblem.shown?]⟩
  | complete e =>
    simp only [step, continueAfter] at h
    split at h
    · cases h
    · split at h <;> cases h <;> exact ⟨rfl, by simp [SyntaxProblem.shown?]⟩

/-- The error of a token marks it. -/
theorem marks_step (h : s.step limit t = .error x) : Marks x t.span t.shown := by
  rw [step_eq] at h
  cases hnone : s.step none t with
  | error y =>
    rw [hnone] at h
    cases h
    exact marks_step_none hnone
  | ok s₁ =>
    rw [hnone] at h
    exact marks_checked h _

/-- The error of the end marks the end. -/
theorem marks_finish (h : s.finish place = .error x) : Marks x place "EOF" := by
  unfold finish at h
  split at h
  · split at h <;> cases h <;> exact ⟨rfl, by simp [SyntaxProblem.shown?]⟩
  · cases h
    exact ⟨rfl, nofun⟩

/-- How a message shows the token where some tokens go on. -/
def shownAt : List Token → String
  | [] => "EOF"
  | t :: _ => t.shown

/-- **The error of a reading marks the place where it stops.** -/
theorem marks_run {stop : Span} (h : (s.run limit stop ts).result = .error x) :
    Marks x (Reader.place stop (s.run limit stop ts).rest)
      (shownAt (s.run limit stop ts).rest) := by
  induction ts generalizing s with
  | nil =>
    cases he : s.enter limit stop with
    | error y =>
      have henter : s.enter limit (Reader.place stop []) = .error y := he
      rw [run_of_enter henter] at h ⊢
      cases h
      exact marks_enter henter _
    | ok u =>
      rw [run_nil he] at h ⊢
      exact marks_finish h
  | cons t ts ih =>
    cases he : s.enter limit t.span with
    | error y =>
      have henter : s.enter limit (Reader.place stop (t :: ts)) = .error y := he
      rw [run_of_enter henter] at h ⊢
      cases h
      exact marks_enter henter _
    | ok u =>
      cases ht : s.step limit t with
      | error y =>
        rw [run_cons_of_error he ht] at h ⊢
        cases h
        exact marks_step ht
      | ok s' =>
        rw [run_cons_of_ok he ht] at h ⊢
        exact ih h

end Reader.State

end Reckon
