/-
  Reading tokens that were moved.

  What reading makes of some tokens does not depend on where they stand: places are
  only passed on to errors.

  * `Token.mapSpan`, `SyntaxError.mapSpan` and `Reading.mapSpan` move a token, an error
    and all that a reading leaves;
  * `State.step_mapSpan`: a token that was moved does the same, and its error is moved;
  * `State.run_mapSpan`: reading tokens that were moved leaves the reading that was
    moved.
-/
import Reckon.Proofs.Limit

namespace Reckon

/-- The token at another place. -/
def Token.mapSpan (g : Span → Span) (t : Token) : Token := { t with span := g t.span }

/-- The error at another place. -/
def SyntaxError.mapSpan (g : Span → Span) (x : SyntaxError) : SyntaxError :=
  ⟨x.problem, g x.span⟩

/-- The reading with its error and all its tokens at other places. -/
def Reading.mapSpan (g : Span → Span) (r : Reading) : Reading :=
  ⟨r.result.mapError (.mapSpan g), r.rest.map (.mapSpan g), r.begun.map (·.map (.mapSpan g))⟩

namespace Reader

variable {g : Span → Span} {limit : Option Nat}

theorem checkDepth_mapSpan (depth : Nat) (place : Span) :
    checkDepth limit depth (g place) =
      (checkDepth limit depth place).mapError (.mapSpan g) := by
  unfold checkDepth
  split
  · rfl
  · split <;> rfl

theorem place_mapSpan (stop : Span) (ts : List Token) :
    place (g stop) (ts.map (.mapSpan g)) = g (place stop ts) := by
  cases ts <;> rfl

namespace State

theorem enter_mapSpan (s : State) (place : Span) :
    s.enter limit (g place) = (s.enter limit place).mapError (.mapSpan g) := by
  obtain ⟨mode, σ⟩ := s
  cases mode with
  | argument => exact checkDepth_mapSpan _ _
  | factor | name _ | complete _ => rfl

theorem checked_mapSpan (s : State) (place : Span) :
    checked limit (g place) s = (checked limit place s).mapError (.mapSpan g) := by
  obtain ⟨mode, σ⟩ := s
  cases mode with
  | factor =>
    simp only [checked, checkDepth_mapSpan]
    cases checkDepth limit (depth σ) place <;> rfl
  | argument | name _ | complete _ => rfl

theorem step_none_mapSpan (s : State) (t : Token) :
    s.step none (t.mapSpan g) = (s.step none t).mapError (.mapSpan g) := by
  obtain ⟨mode, σ⟩ := s
  obtain ⟨kind, text, span, value⟩ := t
  cases mode with
  | factor | argument => cases kind <;> rfl
  | name f =>
    by_cases h : kind = .leftParen
    · subst h
      rfl
    · show ite (kind = .leftParen) _ _ = Except.mapError _ (ite (kind = .leftParen) _ _)
      rw [if_neg h, if_neg h]
      rfl
  | complete e =>
    simp only [step, continueAfter, Token.mapSpan]
    split
    · rfl
    · split <;> rfl

/-- **A token that was moved does the same,** and its error is moved. -/
theorem step_mapSpan (s : State) (t : Token) :
    s.step limit (t.mapSpan g) = (s.step limit t).mapError (.mapSpan g) := by
  rw [step_eq, step_eq limit t, step_none_mapSpan]
  cases s.step none t with
  | error x => rfl
  | ok s' => exact checked_mapSpan s' t.span

theorem finish_mapSpan (s : State) (place : Span) :
    s.finish (g place) = (s.finish place).mapError (.mapSpan g) := by
  unfold finish
  split
  · split <;> rfl
  · rfl

theorem begins_mapSpan (s : State) (ts : List Token) :
    s.begins (ts.map (.mapSpan g)) = (s.begins ts).map (·.map (.mapSpan g)) := by
  unfold begins
  split <;> rfl

theorem run_mapSpan_of_enter {s : State} {stop : Span} {ts : List Token} {x : SyntaxError}
    (h : s.enter limit (place stop ts) = .error x) :
    s.run limit (g stop) (ts.map (.mapSpan g)) = (s.run limit stop ts).mapSpan g := by
  have henter : s.enter limit (place (g stop) (ts.map (.mapSpan g))) =
      .error (x.mapSpan g) := by
    rw [place_mapSpan, enter_mapSpan, h]
    rfl
  rw [run_of_enter henter, run_of_enter h]
  rfl

/-- **Reading tokens that were moved leaves the reading that was moved.** -/
theorem run_mapSpan (s : State) (stop : Span) (ts : List Token) :
    s.run limit (g stop) (ts.map (.mapSpan g)) = (s.run limit stop ts).mapSpan g := by
  induction ts generalizing s with
  | nil =>
    cases he : s.enter limit stop with
    | error x => exact run_mapSpan_of_enter he
    | ok u =>
      have henter : s.enter limit (g stop) = .ok () := by
        rw [enter_mapSpan, he]
        rfl
      rw [List.map_nil, run_nil henter, run_nil he, finish_mapSpan]
      exact congrArg (Reading.mk _ []) (begins_mapSpan s [])
  | cons t ts ih =>
    cases he : s.enter limit t.span with
    | error x => exact run_mapSpan_of_enter he
    | ok u =>
      have henter : s.enter limit (g t.span) = .ok () := by
        rw [enter_mapSpan, he]
        rfl
      have hbegins := begins_mapSpan (g := g) s (t :: ts)
      rw [List.map_cons] at hbegins ⊢
      cases ht : s.step limit t with
      | error x =>
        have hstep : s.step limit (t.mapSpan g) = .error (x.mapSpan g) := by
          rw [step_mapSpan, ht]
          rfl
        rw [run_cons_of_error henter hstep, run_cons_of_error he ht, hbegins]
        rfl
      | ok s' =>
        have hstep : s.step limit (t.mapSpan g) = .ok s' := by
          rw [step_mapSpan, ht]
          rfl
        rw [run_cons_of_ok henter hstep, run_cons_of_ok he ht, ih, hbegins]
        simp [Reading.mapSpan]

end State

end Reader

end Reckon
