/-
  Where an input becomes unrepairable.

  Whatever the reader has taken can be completed to an expression: a factor where one
  must begin, and then the brackets that are open. So an error is found no later
  than it could be, and no earlier.

  * `Pushdown.State.closing` are the tokens that complete what a state of the
    recogniser has seen, and `Pushdown.State.run_closing` says that they do;
  * `exists_stop`: where a reading that fails stops, and what failed there;
  * `Accepts ts`: the tokens `ts` are read as an expression;
  * `marks_first_unrepairable`: an error marks the first token behind which no
    continuation helps.
-/
import Reckon.Proofs.Pushdown
import Reckon.Proofs.Recognition

namespace Reckon

/-! ## Completing what was seen -/

namespace Pushdown.State

/-- A token of a class that is no number, at no place in particular. -/
def filler (kind : TokenKind) (text : String) : Token := ⟨kind, text, .point 0, 0⟩

/-- The brackets that close all open ones. -/
def closers (σ : List Opened) : List Token := σ.map fun _ => filler .rightParen ")"

/-- The tokens that complete what was seen: what is expected, and then the brackets. -/
def closing (s : State) : List Token :=
  match s.expected with
  | .operand => filler .number "0" :: closers s.stack
  | .argument => filler .leftParen "(" :: filler .number "0" :: closers (.call :: s.stack)
  | .operator => closers s.stack

theorem isFinish_of_mem_closers {σ : List Opened} {t : Token} (h : t ∈ closers σ) :
    t.isFinish = false := by
  obtain ⟨-, -, rfl⟩ := List.mem_map.1 h
  rfl

theorem isFinish_of_mem_closing {s : State} {t : Token} (h : t ∈ s.closing) :
    t.isFinish = false := by
  unfold closing at h
  split at h
  · rcases List.mem_cons.1 h with rfl | h
    · rfl
    · exact isFinish_of_mem_closers h
  · rcases List.mem_cons.1 h with rfl | h
    · rfl
    rcases List.mem_cons.1 h with rfl | h
    · rfl
    · exact isFinish_of_mem_closers h
  · exact isFinish_of_mem_closers h

variable {last : Token} (hlast : last.kind = .finish)
include hlast

/-- Behind an operand, the closing brackets lead to the end. -/
theorem run_closers (σ : List Opened) :
    (State.mk .operator σ).run (closers σ ++ [last]) = some (.ok (), σ.length) := by
  induction σ with
  | nil =>
    have hmove : (State.mk .operator []).move last = .accept := by
      simp only [move, moveOperator, hlast]
    simp only [closers, List.map_nil, List.nil_append, run, hmove, List.length_nil]
  | cons b σ ih =>
    have hmove : (State.mk .operator (b :: σ)).move (filler .rightParen ")") =
        .go ⟨.operator, σ⟩ := rfl
    simp only [closers, List.map_cons, List.cons_append, run, hmove]
    rw [← closers, ih]
    rfl

/-- **Whatever the recogniser has seen can be completed.** -/
theorem run_closing (s : State) :
    s.run (s.closing ++ [last]) = some (.ok (), s.closing.length) := by
  obtain ⟨expected, σ⟩ := s
  cases expected with
  | operator => simpa [closing, closers] using run_closers hlast σ
  | operand =>
    have h := run_closers hlast σ
    simp only [closing, List.cons_append, run]
    simp only [move, moveOperand, filler]
    rw [h]
    simp [closers]
  | argument =>
    have h := run_closers hlast (.call :: σ)
    simp only [closing, List.cons_append, run]
    simp only [move, moveArgument, moveOperand, filler]
    rw [h]
    simp [closers]

end Pushdown.State

namespace Reader

variable {s : State} {ts : List Token} {last : Token} {stop : Span} {x : SyntaxError}

/-- So can whatever the reader has taken. -/
theorem exists_result_run_closing (s : State) (stop : Span) :
    ∃ e, (s.run none stop s.outline.closing).result = .ok e := by
  have hclosing : ∀ t ∈ s.outline.closing, t.isFinish = false :=
    fun t ht => Pushdown.State.isFinish_of_mem_closing ht
  have hlast : (Token.mk .finish "" stop 0).isFinish = true := rfl
  have hrun := State.run_outline hclosing hlast [] s
  rw [Pushdown.State.run_closing rfl, Option.some_inj, Prod.mk.injEq] at hrun
  cases hresult : (s.run none stop s.outline.closing).result with
  | ok e => exact ⟨e, rfl⟩
  | error x =>
    have hverdict := hrun.1
    rw [hresult] at hverdict
    cases hverdict

/-! ## Where a reading stops -/

/-- What fails where a reading stops: the next token, or the end. -/
def State.FailsAt (s : State) (stop : Span) (x : SyntaxError) : List Token → Prop
  | [] => s.finish stop = .error x
  | t :: _ => s.step none t = .error x

/-- **A reading that fails has taken all tokens up to the one that fails.** -/
theorem exists_stop (h : (s.run none stop ts).result = .error x) :
    ∃ us s', ts = us ++ (s.run none stop ts).rest ∧ s.after none us = .ok s' ∧
      s'.FailsAt stop x (s.run none stop ts).rest := by
  induction ts generalizing s with
  | nil =>
    rw [State.run_nil (State.enter_none _ _)] at h ⊢
    exact ⟨[], s, rfl, rfl, h⟩
  | cons t ts ih =>
    cases ht : s.step none t with
    | error y =>
      rw [State.run_cons_of_error (State.enter_none _ _) ht] at h ⊢
      cases h
      exact ⟨[], s, rfl, rfl, ht⟩
    | ok s₁ =>
      rw [State.run_cons_of_ok (State.enter_none _ _) ht] at h ⊢
      obtain ⟨us, s', hts, hs', hfails⟩ := ih h
      refine ⟨t :: us, s', by rw [List.cons_append, ← hts], ?_, hfails⟩
      rw [State.after_cons_of_isStep (State.step_none_iff.1 ht), hs']

/-- Where a token fails, no continuation helps. -/
theorem result_run_append_of_error {us : List Token} {t : Token} {s' : State}
    (hs : s.after none us = .ok s') (ht : s'.step none t = .error x) (more : List Token) :
    (s.run none stop (us ++ t :: more)).result = .error x := by
  rw [State.result_run_none, State.after_append hs, State.after_cons, State.enter_none,
    Except.bind, ht]
  rfl

/-! ## Inputs -/

/-- Some tokens are read as an expression. -/
def Accepts (ts : List Token) : Prop := ∃ e, (ofTokens ts none).read.result = .ok e

/-- Tokens before an end are accepted if the reader gets through them. -/
theorem accepts_append_finish (hts : ∀ t ∈ ts, t.isFinish = false) (hlast : last.isFinish = true) :
    Accepts (ts ++ [last]) ↔ ∃ e, (State.initial.run none last.span ts).result = .ok e := by
  rw [Accepts, ofTokens_append_finish hts hlast]
  rfl

/-- Some tokens go on to an input that is accepted. -/
def Completable (ts : List Token) (last : Token) : Prop :=
  ∃ more, (∀ t ∈ more, t.isFinish = false) ∧ Accepts (ts ++ more ++ [last])

/-- What the reader gets through can be completed. -/
theorem completable_of_after (hts : ∀ t ∈ ts, t.isFinish = false) (hlast : last.isFinish = true)
    (hs : State.initial.after none ts = .ok s) : Completable ts last := by
  obtain ⟨e, he⟩ := exists_result_run_closing s last.span
  have hclosing : ∀ t ∈ s.outline.closing, t.isFinish = false :=
    fun t ht => Pushdown.State.isFinish_of_mem_closing ht
  have hmore : ∀ t ∈ ts ++ s.outline.closing, t.isFinish = false := by
    intro t ht
    rcases List.mem_append.1 ht with ht | ht
    · exact hts t ht
    · exact hclosing t ht
  refine ⟨s.outline.closing, hclosing, ?_⟩
  rw [accepts_append_finish hmore hlast]
  refine ⟨e, ?_⟩
  rw [State.result_run_none, State.after_append hs, ← State.result_run_none]
  exact he

/-- Where a token before any end fails, no continuation is accepted. -/
theorem not_accepts_of_error {t : Token} (hts : ∀ u ∈ ts ++ [t], u.isFinish = false)
    (hs : State.initial.after none ts = .ok s) (ht : s.step none t = .error x)
    (more : List Token) : ¬ Accepts (ts ++ [t] ++ more) := by
  rintro ⟨e, he⟩
  have htokens : (ts ++ [t] ++ more).takeWhile (fun u => !u.isFinish) =
      ts ++ t :: more.takeWhile fun u => !u.isFinish := by
    rw [List.takeWhile_append_of_pos fun u hu => by simp [hts u hu], List.append_assoc]
    rfl
  rw [read, ofTokens, htokens, result_run_append_of_error hs ht] at he
  cases he

/-- **An error marks the first token at which the input became unrepairable.** The
    tokens before it can be completed; with it, no continuation helps, and if it is
    the end, the input itself is none. -/
theorem marks_first_unrepairable (ts : List Token) (last : Token)
    (hts : ∀ t ∈ ts, t.isFinish = false) (hlast : last.isFinish = true) (x : SyntaxError)
    (hx : (ofTokens (ts ++ [last]) none).read.result = .error x) :
    ∃ p t, (ts ++ [last])[p]? = some t ∧ p = (ofTokens (ts ++ [last]) none).cursor ∧
      x.span = t.span ∧ Completable (ts.take p) last ∧
      (t.isFinish = false → ∀ more, ¬ Accepts (ts.take (p + 1) ++ more)) ∧
      (t.isFinish = true → p = ts.length ∧ ¬ Accepts (ts ++ [last])) := by
  have hreject : ¬ Accepts (ts ++ [last]) := by
    rintro ⟨e, he⟩
    rw [hx] at he
    cases he
  rw [cursor, ofTokens_append_finish hts hlast] at *
  have hspan := (State.marks_run hx).span
  obtain ⟨us, s, hus, hs, hfails⟩ := exists_stop hx
  rw [read] at *
  generalize (State.initial.run none last.span ts).rest = rest at *
  subst hus
  have hcursor : us.length = (us ++ rest).length - rest.length := by simp
  have hcompletable : Completable ((us ++ rest).take us.length) last := by
    rw [List.take_left]
    exact completable_of_after (fun t ht => hts t (List.mem_append_left _ ht)) hlast hs
  cases rest with
  | nil =>
    refine ⟨us.length, last, by simp, hcursor, hspan, hcompletable, ?_, fun _ => ?_⟩
    · intro h
      rw [hlast] at h
      cases h
    · exact ⟨by simp, hreject⟩
  | cons t vs =>
    refine ⟨us.length, t, by simp, hcursor, hspan, hcompletable, fun _ more => ?_, ?_⟩
    · have htake : (us ++ t :: vs).take (us.length + 1) = us ++ [t] := by
        rw [List.take_length_add_append]
        rfl
      have hus : ∀ u ∈ us ++ [t], u.isFinish = false := by
        intro u hu
        refine hts u ?_
        rw [List.append_cons]
        exact List.mem_append_left _ hu
      rw [htake]
      exact not_accepts_of_error hus hs hfails more
    · intro h
      rw [hts t (by simp)] at h
      cases h

/-- The tokens of `sin(2 3`. -/
def missingOperator : List Token :=
  [⟨.function .sin, "sin", ⟨0, 3⟩, 0⟩, ⟨.leftParen, "(", ⟨3, 4⟩, 0⟩, ⟨.number, "2", ⟨4, 5⟩, 2⟩,
    ⟨.number, "3", ⟨6, 7⟩, 3⟩]

/-- In `sin(2 3` this is the second number, and not the end where the bracket is
    missing. -/
theorem marks_missingOperator :
    (∀ t ∈ missingOperator, t.isFinish = false) ∧ (Token.finish 7).isFinish = true ∧
      (ofTokens (missingOperator ++ [.finish 7]) none).read.result =
        .error ⟨.expectedToken .rightParen "3", ⟨6, 7⟩⟩ ∧
      ∃ p t, (missingOperator ++ [.finish 7])[p]? = some t ∧
        p = (ofTokens (missingOperator ++ [.finish 7]) none).cursor ∧ ⟨6, 7⟩ = t.span ∧
        Completable (missingOperator.take p) (.finish 7) ∧
        (t.isFinish = false → ∀ more, ¬ Accepts (missingOperator.take (p + 1) ++ more)) ∧
        (t.isFinish = true →
          p = missingOperator.length ∧ ¬ Accepts (missingOperator ++ [.finish 7])) :=
  ⟨by decide, rfl, rfl, marks_first_unrepairable missingOperator (.finish 7) (by decide) rfl
    ⟨.expectedToken .rightParen "3", ⟨6, 7⟩⟩ rfl⟩

end Reader

end Reckon
