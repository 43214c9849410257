/-
  Whether some tokens are an expression, without the expression.

  How an expression groups depends on operators and signs; whether some tokens
  are one, and where and why they are none, does not. That depends on the brackets
  that are open, and on what is expected next.

  * `Pushdown.State.move` is what a token does to a recogniser that keeps a stack of
    open brackets and nothing else, and `Pushdown.State.run` goes through some
    tokens up to its verdict;
  * `State.outline` is the recogniser's view of a state of the reader;
  * `State.move_outline` and `State.move_outline_finish`: each step of the reader
    is a move of the recogniser, with the same problem if there is one;
  * `run_ended_eq`: without a limit, reading any tokens ends with the verdict of
    the recogniser, at the same token.
-/
import Reckon.Proofs.Place.Reading
import Reckon.Proofs.Threshold

namespace Reckon

/-! ## The recogniser -/

namespace Pushdown

/-- An open bracket. -/
inductive Opened where
  | group
  | call
deriving DecidableEq, Repr

/-- What is expected at the cursor. -/
inductive Expected where
  | operand
  /-- The bracket behind the name of a function. -/
  | argument
  | operator
deriving DecidableEq, Repr

/-- What is expected, and the open brackets, the innermost one first. -/
structure State where
  expected : Expected
  stack : List Opened
deriving DecidableEq, Repr

/-- The state before the first token. -/
def State.initial : State := ⟨.operand, []⟩

/-- What the recogniser does at a token. -/
inductive Move where
  | go (s : State)
  | accept
  | reject (problem : SyntaxProblem)

namespace State

/-- What a token does where an operand must begin. -/
def moveOperand (t : Token) (σ : List Opened) : Move :=
  match t.kind with
  | .number => .go ⟨.operator, σ⟩
  | .plus | .minus => .go ⟨.operand, σ⟩
  | .leftParen => .go ⟨.operand, .group :: σ⟩
  | .function _ => .go ⟨.argument, σ⟩
  | .finish => .reject .unexpectedEnd
  | _ => .reject (.invalidFactor t.shown)

/-- What a token does behind the name of a function. -/
def moveArgument (t : Token) (σ : List Opened) : Move :=
  match t.kind with
  | .leftParen => .go ⟨.operand, .call :: σ⟩
  | .finish => .reject .unexpectedEnd
  | _ => .reject (.expectedToken .leftParen t.shown)

/-- What a token does behind an operand. -/
def moveOperator (t : Token) (σ : List Opened) : Move :=
  match t.kind, σ with
  | .plus, σ | .minus, σ | .star, σ | .slash, σ | .caret, σ => .go ⟨.operand, σ⟩
  | .rightParen, _ :: σ => .go ⟨.operator, σ⟩
  | .finish, [] => .accept
  | .rightParen, [] => .reject (.mismatchedParen t.shown)
  | _, [] => .reject (.trailingInput t.shown)
  | _, .group :: _ => .reject (.mismatchedParen t.shown)
  | .finish, .call :: _ => .reject .unexpectedEnd
  | _, .call :: _ => .reject (.expectedToken .rightParen t.shown)

/-- What a token does. -/
def move (s : State) (t : Token) : Move :=
  match s.expected with
  | .operand => moveOperand t s.stack
  | .argument => moveArgument t s.stack
  | .operator => moveOperator t s.stack

/-- The verdict on some tokens, and how many of them lie before the one that
    decides it; there is none if no token does. -/
def run (s : State) : List Token → Option (Except SyntaxError Unit × Nat)
  | [] => none
  | t :: ts =>
    match s.move t with
    | .go s' => (s'.run ts).map fun (verdict, n) => (verdict, n + 1)
    | .accept => some (.ok (), 0)
    | .reject problem => some (.error ⟨problem, t.span⟩, 0)

end State

end Pushdown

namespace Reader

/-- Some tokens, with an end behind the last one unless it is an end. -/
def ended (ts : List Token) : List Token :=
  match ts.getLast? with
  | some t => if t.isFinish then ts else ts ++ [.finish t.span.stop]
  | none => [.finish 0]

variable {s s' : State} {σ : List Frame} {e : Expr} {t : Token} {ts : List Token}

/-! ## The outline of a state -/

/-- The bracket that a frame opened, if it opened one. -/
def Frame.opened? (frame : Frame) : Option Pushdown.Opened :=
  match frame.opening with
  | .bracket .group => some .group
  | .bracket (.call _) => some .call
  | .sign _ | .operand _ _ => none

/-- The open brackets of a stack. -/
def brackets (σ : List Frame) : List Pushdown.Opened := σ.filterMap Frame.opened?

/-- What the recogniser expects where the reader stands. -/
def Mode.outline : Mode → Pushdown.Expected
  | factor | argument => .operand
  | name _ => .argument
  | complete _ => .operator

/-- What the recogniser knows of a state of the reader. -/
def State.outline (s : State) : Pushdown.State := ⟨s.mode.outline, brackets s.stack⟩

@[simp] theorem brackets_nil : brackets [] = [] := rfl

@[simp] theorem brackets_sign (sign : Sign) (n : Nat) (σ : List Frame) :
    brackets (⟨.sign sign, n⟩ :: σ) = brackets σ := rfl

@[simp] theorem brackets_operand (left : Expr) (op : BinaryOp) (n : Nat) (σ : List Frame) :
    brackets (⟨.operand left op, n⟩ :: σ) = brackets σ := rfl

@[simp] theorem brackets_group (n : Nat) (σ : List Frame) :
    brackets (⟨.bracket .group, n⟩ :: σ) = .group :: brackets σ := rfl

@[simp] theorem brackets_call (f : Function) (n : Nat) (σ : List Frame) :
    brackets (⟨.bracket (.call f), n⟩ :: σ) = .call :: brackets σ := rfl

/-- Closing operators and signs closes no bracket. -/
@[simp] theorem brackets_closeTighter (q : Nat) (e : Expr) (σ : List Frame) :
    brackets (closeTighter q e σ).2 = brackets σ := by
  induction σ generalizing e with
  | nil => rfl
  | cons frame σ ih =>
    match frame with
    | ⟨.bracket _, n⟩ => rfl
    | ⟨.sign sign, n⟩ => exact ih _
    | ⟨.operand left op, n⟩ =>
      by_cases h : q < op.precedence
      · rw [closeTighter_operand_lt h, ih]
        rfl
      · rw [closeTighter_operand_le (Nat.not_lt.1 h)]

@[simp] theorem brackets_closeLink (op : BinaryOp) (e : Expr) (σ : List Frame) :
    brackets (closeLink op e σ).2.1 = brackets σ := by
  by_cases h : IsLink op σ
  · obtain ⟨left, op', n, below, rfl, hg, hp⟩ := exists_of_isLink h
    rw [closeLink_joins hg hp]
    rfl
  · rw [closeLink_of_not_isLink h]

/-- Closing all operators and signs stops at a bracket or at the bottom. -/
theorem closeTighter_zero (e : Expr) (σ : List Frame) :
    (∃ v, closeTighter 0 e σ = (v, [])) ∨
      ∃ v b n below, closeTighter 0 e σ = (v, ⟨.bracket b, n⟩ :: below) := by
  induction σ generalizing e with
  | nil => exact Or.inl ⟨e, rfl⟩
  | cons frame σ ih =>
    match frame with
    | ⟨.bracket b, n⟩ => exact Or.inr ⟨e, b, n, σ, rfl⟩
    | ⟨.sign sign, n⟩ => exact ih _
    | ⟨.operand left op, n⟩ =>
      rw [closeTighter_operand_lt op.precedence_pos]
      exact ih _

/-! ## Steps are moves -/

/-- The move that the outcome of a step is. -/
def moveOf : Except SyntaxError State → Pushdown.Move
  | .ok s => .go s.outline
  | .error x => .reject x.problem

namespace State

theorem moveOperand_brackets (ht : t.isFinish = false) (σ : List Frame) :
    Pushdown.State.moveOperand t (brackets σ) = moveOf (beginFactor none t σ) := by
  unfold Pushdown.State.moveOperand beginFactor
  cases hk : t.kind with
  | finish => simp [Token.isFinish, hk] at ht
  | _ => rfl

theorem moveOperator_of_operator {op : BinaryOp} (hop : BinaryOp.ofKind? t.kind = some op)
    (σ : List Pushdown.Opened) : Pushdown.State.moveOperator t σ = .go ⟨.operand, σ⟩ := by
  unfold Pushdown.State.moveOperator
  cases hk : t.kind with
  | plus | minus | star | slash | caret => rfl
  | _ => rw [hk] at hop; cases hop

theorem moveOperator_brackets (ht : t.isFinish = false) (e : Expr) (σ : List Frame) :
    Pushdown.State.moveOperator t (brackets σ) = moveOf (continueAfter none t e σ) := by
  cases hop : BinaryOp.ofKind? t.kind with
  | some op =>
    rw [moveOperator_of_operator hop, continueAfter, hop]
    simp only [openAt, checkDepth, Except.map, moveOf, outline, Mode.outline, brackets_operand,
      brackets_closeLink, brackets_closeTighter]
  | none =>
    -- What is left when all operators and signs are closed decides about the token.
    have hb := brackets_closeTighter 0 e σ
    unfold Pushdown.State.moveOperator continueAfter
    rcases closeTighter_zero e σ with ⟨v, hc⟩ | ⟨v, b, n, below, hc⟩
    · rw [hc] at hb
      rw [← hb]
      cases hk : t.kind with
      | finish => simp [Token.isFinish, hk] at ht
      | plus | minus | star | slash | caret => rw [hk] at hop; cases hop
      | _ => simp only [BinaryOp.ofKind?, hc]; rfl
    · rw [hc] at hb
      rw [← hb]
      cases hk : t.kind with
      | finish => simp [Token.isFinish, hk] at ht
      | plus | minus | star | slash | caret => rw [hk] at hop; cases hop
      | _ => cases b <;> simp only [BinaryOp.ofKind?, hc] <;> rfl

/-- **Each step of the reader is a move of the recogniser.** -/
theorem move_outline (ht : t.isFinish = false) (s : State) :
    s.outline.move t = moveOf (s.step none t) := by
  obtain ⟨mode, σ⟩ := s
  cases mode with
  | factor | argument => exact moveOperand_brackets ht σ
  | complete e => exact moveOperator_brackets ht e σ
  | name f =>
    show Pushdown.State.moveArgument t (brackets σ) = _
    unfold Pushdown.State.moveArgument
    cases hk : t.kind with
    | finish => simp [Token.isFinish, hk] at ht
    | _ => simp [step, hk, moveOf, outline, Mode.outline]

/-- The verdict that the outcome of the end is. -/
def verdictOf : Except SyntaxError Expr → Pushdown.Move
  | .ok _ => .accept
  | .error x => .reject x.problem

/-- **What the end does to the reader, it does to the recogniser.** -/
theorem move_outline_finish (ht : t.isFinish = true) (place : Span) (s : State) :
    s.outline.move t = verdictOf (s.finish place) := by
  have hk : t.kind = .finish := by simpa [Token.isFinish] using ht
  have hs : t.shown = "EOF" := by simp [Token.shown, ht]
  obtain ⟨mode, σ⟩ := s
  cases mode with
  | factor | argument =>
    show Pushdown.State.moveOperand t (brackets σ) = _
    rw [Pushdown.State.moveOperand, hk]
    rfl
  | name f =>
    show Pushdown.State.moveArgument t (brackets σ) = _
    rw [Pushdown.State.moveArgument, hk]
    rfl
  | complete e =>
    show Pushdown.State.moveOperator t (brackets σ) = _
    have hb := brackets_closeTighter 0 e σ
    rcases closeTighter_zero e σ with ⟨v, hc⟩ | ⟨v, b, n, below, hc⟩
    · rw [hc] at hb
      simp only [← hb, Pushdown.State.moveOperator, hk, finish, hc]
      rfl
    · rw [hc] at hb
      cases b <;> simp only [← hb, Pushdown.State.moveOperator, hk, hs, finish, hc] <;> rfl

/-! ## Runs -/

/-- Reading up to the first end gives the verdict of the recogniser. -/
theorem run_outline {us : List Token} (hus : ∀ t ∈ us, t.isFinish = false) {last : Token}
    (hlast : last.isFinish = true) (vs : List Token) (s : State) :
    s.outline.run (us ++ last :: vs) =
      some ((s.run none last.span us).result.map fun _ => (),
        us.length - (s.run none last.span us).rest.length) := by
  induction us generalizing s with
  | nil =>
    rw [run_nil (enter_none _ _), List.nil_append, Pushdown.State.run,
      move_outline_finish hlast last.span]
    cases hf : s.finish last.span with
    | ok e => rfl
    | error x =>
      have hspan := (marks_finish hf).span
      simp only [verdictOf, Except.map, ← hspan]
      rfl
  | cons t us ih =>
    have ht : t.isFinish = false := hus t (by simp)
    rw [List.cons_append, Pushdown.State.run, move_outline ht]
    cases hs : s.step none t with
    | error x =>
      have hspan := (marks_step hs).span
      rw [run_cons_of_error (enter_none _ _) hs]
      simp only [moveOf, Except.map, ← hspan, Nat.sub_self]
    | ok s' =>
      have hle := (rest_suffix none last.span s' us).length_le
      rw [run_cons_of_ok (enter_none _ _) hs]
      simp only [moveOf, ih (fun u hu => hus u (by simp [hu])), Option.map_some, List.length_cons]
      rw [Nat.succ_sub hle]

end State

/-- What stands before the first end, and the end itself. -/
theorem exists_ended_eq (ts : List Token) : ∃ last vs, last.isFinish = true ∧
    last.span = stopOf ts ∧ ended ts = (ts.takeWhile fun t => !t.isFinish) ++ last :: vs := by
  cases hfind : ts.find? Token.isFinish with
  | some last =>
    obtain ⟨hlast, us, vs, rfl, hus⟩ := List.find?_eq_some_iff_append.1 hfind
    have htake : (us ++ last :: vs).takeWhile (fun t => !t.isFinish) = us := by
      rw [List.takeWhile_append_of_pos hus]
      simp [hlast]
    have hended : ∃ ws, ended (us ++ last :: vs) = us ++ last :: (vs ++ ws) := by
      unfold ended
      split
      · split
        · exact ⟨[], by simp⟩
        · exact ⟨_, by rw [List.append_assoc, List.cons_append]⟩
      · next hnone => simp at hnone
    obtain ⟨ws, hws⟩ := hended
    exact ⟨last, vs ++ ws, hlast, by simp [stopOf, hfind], by rw [htake, hws]⟩
  | none =>
    have hts : ∀ t ∈ ts, t.isFinish = false := by simpa using hfind
    have htake : ts.takeWhile (fun t => !t.isFinish) = ts := by
      have h : (ts ++ []).takeWhile (fun t => !t.isFinish) = ts ++ [] := by
        rw [List.takeWhile_append_of_pos fun t ht => by simp [hts t ht], List.takeWhile_nil]
      simpa using h
    rw [htake]
    cases hlast : ts.getLast? with
    | none =>
      have hnil : ts = [] := by simpa using hlast
      subst hnil
      exact ⟨.finish 0, [], rfl, rfl, rfl⟩
    | some t =>
      have ht : t.isFinish = false := hts t (List.mem_of_getLast? hlast)
      exact ⟨.finish t.span.stop, [], rfl, by simp [stopOf, hfind, hlast, Token.finish],
        by simp [ended, hlast, ht]⟩

/-- **Without a limit, reading ends with the verdict of the recogniser, at the
    token that decides it.** -/
theorem run_ended_eq (ts : List Token) :
    Pushdown.State.initial.run (ended ts) =
      some ((ofTokens ts none).read.result.map fun _ => (), (ofTokens ts none).cursor) := by
  obtain ⟨last, vs, hlast, hspan, hts⟩ := exists_ended_eq ts
  have hus : ∀ t ∈ ts.takeWhile fun t => !t.isFinish, t.isFinish = false := by
    intro t ht
    simpa using List.all_eq_true.1 List.all_takeWhile t ht
  have hrun := State.run_outline hus hlast vs State.initial
  rw [← hts, hspan] at hrun
  exact hrun

end Reader

end Reckon
