/-
  What a session answers, whatever it was asked before.

  * `Request` is what a session may be asked; `Session.serve` gives its answer and
    the session behind it, and `Session.serveAll` goes through a history of
    requests;
  * `Registry.execute_builtin`: a command of the console leaves the session as it
    is, or sets it back;
  * `Session.evaluate_fst`: whether a text is remembered or not, its value is the
    one that the calculator of the session finds;
  * `Session.answers_stateless`: so it is at every point of every history, for the
    calculator with which the session began.
-/
import Mathlib.Data.List.Forall2
import Reckon.Command.Builtin

namespace Reckon

/-- What a session may be asked. -/
inductive Request where
  | evaluate (text : String)
  | parse (text : String)
  | resetCounters
  | forget
  /-- A line for the commands of the console. -/
  | command (line : String)
deriving DecidableEq, Repr

/-- What a session answers. -/
inductive Answer where
  | value (result : Except Failure Float)
  | tree (result : Except SyntaxError Expr)
  | reply (reply : Reply)
  /-- There is nothing to say. -/
  | done

/-- The answer of a calculator, which has no memory; nothing where the answer is
    about the session or changes it. -/
def Calculator.answer? (c : Calculator) : Request → Option Answer
  | .evaluate text => some (.value (c.evaluate text))
  | .parse text => some (.tree (c.parse text))
  | _ => none

/-! ## The commands of the console -/

/-- Whether a command leaves a session as it is, or sets it back. -/
def Handler.KeepsOrResets (handler : Handler) : Prop :=
  ∀ argument s, (handler argument s).2 = s ∨ (handler argument s).2 = s.resetCounters.forget

theorem Handler.keepsOrResets_stats : KeepsOrResets stats := by
  intro argument s
  unfold stats
  split
  · exact Or.inl rfl
  · exact Or.inl rfl

namespace Registry

theorem execute_keepsOrResets {r : Registry} (h : ∀ c ∈ r.commands, c.handler.KeepsOrResets)
    (line : String) (s : Session) :
    (r.execute line s).2 = s ∨ (r.execute line s).2 = s.resetCounters.forget := by
  unfold execute
  split
  · next handler rest hf =>
    obtain ⟨c, hc, hr⟩ := List.exists_of_findSome?_eq_some hf
    obtain ⟨_, -, heq⟩ := Option.map_eq_some_iff.1 hr
    cases heq
    exact h c hc _ s
  · exact Or.inl rfl

theorem keepsOrResets_builtin (colored : Bool) :
    ∀ c ∈ (builtin colored).commands, c.handler.KeepsOrResets := by
  intro c hc
  simp only [builtin, register, empty, mem_insert, List.not_mem_nil, or_false] at hc
  rcases hc with rfl | rfl | rfl | rfl | rfl
  · exact fun _ _ => Or.inr rfl
  · exact Handler.keepsOrResets_stats
  · exact fun _ _ => Or.inl rfl
  · exact fun _ _ => Or.inl rfl
  · exact fun _ _ => Or.inl rfl

/-- **A command of the console leaves the session as it is, or sets it back.** -/
theorem execute_builtin (colored : Bool) (line : String) (s : Session) :
    ((builtin colored).execute line s).2 = s ∨
      ((builtin colored).execute line s).2 = s.resetCounters.forget :=
  execute_keepsOrResets (keepsOrResets_builtin colored) line s

end Registry

namespace Session

/-! ## One request -/

/-- The answer to a request, and the session behind it. -/
def serve (colored : Bool) (s : Session) : Request → Answer × Session
  | .evaluate text =>
    let (result, s') := s.evaluate text
    (.value result, s')
  | .parse text => (.tree (s.parse text), s)
  | .resetCounters => (.done, s.resetCounters)
  | .forget => (.done, s.forget)
  | .command line =>
    let (reply, s') := (Registry.builtin colored).execute line s
    (.reply reply, s')

variable {s : Session} {text : String}

theorem parse_of_lookup? {tree : Expr} (h : s.lookup? text = some tree) :
    s.calculator.parse text = .ok tree := by
  obtain ⟨⟨known, tree'⟩, hlast, hknown⟩ := Option.bind_eq_some_iff.1 h
  have hparse := s.last_parse _ hlast
  dsimp only at hknown
  by_cases heq : known = text
  · rw [if_pos heq] at hknown
    cases hknown
    rw [← heq]
    exact hparse
  · rw [if_neg heq] at hknown
    cases hknown

/-- **The value of a text is the one that the calculator finds,** remembered or
    not. -/
theorem evaluate_fst (s : Session) (text : String) :
    (s.evaluate text).1 = s.calculator.evaluate text := by
  show (s.answer text).1 = s.calculator.evaluate text
  rw [answer, Calculator.evaluate]
  split
  · next tree hl =>
    -- The remembered expression is what reading the text gives.
    rw [parse_of_lookup? hl]
    rfl
  · split
    · next e hp =>
      rw [hp]
      rfl
    · next tree hp =>
      show tree.evaluate.mapError Failure.faulty = _
      rw [hp]
      rfl

theorem calculator_remember {tree : Expr} (h : s.calculator.parse text = .ok tree) :
    (s.remember text tree h).calculator = s.calculator := by
  unfold remember
  split <;> rfl

theorem calculator_answer (s : Session) (text : String) :
    (s.answer text).2.calculator = s.calculator := by
  unfold answer
  split
  · rfl
  · split
    · rfl
    · next tree hp => exact calculator_remember hp

theorem calculator_serve (colored : Bool) (s : Session) (request : Request) :
    (s.serve colored request).2.calculator = s.calculator := by
  cases request with
  | evaluate text => exact calculator_answer s text
  | parse _ | resetCounters | forget => rfl
  | command line =>
    show ((Registry.builtin colored).execute line s).2.calculator = s.calculator
    rcases Registry.execute_builtin colored line s with h | h
    · rw [h]
    · rw [h]
      rfl

/-- One request is answered as by the calculator. -/
theorem serve_fst (colored : Bool) (s : Session) (request : Request) :
    ∀ a ∈ s.calculator.answer? request, (s.serve colored request).1 = a := by
  intro a ha
  cases request with
  | evaluate text =>
    cases ha
    exact congrArg Answer.value (evaluate_fst s text)
  | parse text =>
    cases ha
    rfl
  | resetCounters | forget | command _ => cases ha

/-! ## Histories -/

/-- The answers to a history of requests, and the session behind it. -/
def serveAll (colored : Bool) (s : Session) : List Request → List Answer × Session
  | [] => ([], s)
  | request :: history =>
    let (answer, s') := s.serve colored request
    let (answers, s'') := s'.serveAll colored history
    (answer :: answers, s'')

theorem serveAll_stateless (colored : Bool) (s : Session) (history : List Request) :
    List.Forall₂ (fun request answer => ∀ a ∈ s.calculator.answer? request, answer = a)
      history (s.serveAll colored history).1 := by
  induction history generalizing s with
  | nil => exact .nil
  | cons request history ih =>
    have hrest := ih (s.serve colored request).2
    rw [calculator_serve] at hrest
    exact .cons (serve_fst colored s request) hrest

/-- **Whatever a session was asked before, it evaluates and reads a text like a
    calculator with its limit that has no memory.** -/
theorem answers_stateless (settings : Settings) (colored : Bool) (history : List Request) :
    List.Forall₂
      (fun request answer => ∀ a ∈ Calculator.answer? ⟨settings.limit⟩ request, answer = a)
      history ((ofSettings settings).serveAll colored history).1 :=
  serveAll_stateless colored (ofSettings settings) history

end Session

end Reckon
