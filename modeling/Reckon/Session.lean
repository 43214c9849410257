/-
  A session: a calculator that counts what it is asked and remembers the last
  expression that it read.

  A text equal to the remembered one is not read again. A text that is no
  expression leaves the memory as it is; one whose expression has no value is
  remembered all the same.

  * `Session.evaluate` is the value of a text, and the session behind it;
  * `Counters` are what it counts, and `Counters.render` shows them;
  * the remembered expression is always that of its text: this is part of the
    type.
-/
import Reckon.Calculator

namespace Reckon

/-- What a session counts. -/
structure Counters where
  evaluations : Nat := 0
  successes : Nat := 0
  failures : Nat := 0
  /-- The evaluations of a remembered text. -/
  hits : Nat := 0
deriving DecidableEq, Repr

namespace Counters

/-- How many evaluations succeeded, in percent; zero if there were none. -/
def successRate (c : Counters) : Float :=
  if c.evaluations = 0 then 0 else c.successes.toFloat * 100 / c.evaluations.toFloat

/-- The counters in writing. -/
def render (c : Counters) : String :=
  s!"Evaluations: {c.evaluations}\nSucceeded:   {c.successes}\nFailed:      {c.failures}\n" ++
    s!"Cache hits:  {c.hits}\nSuccess rate: {Number.tenths c.successRate}%"

/-- The counters after one more evaluation. -/
def count (c : Counters) (hit succeeded : Bool) : Counters where
  evaluations := c.evaluations + 1
  successes := c.successes + succeeded.toNat
  failures := c.failures + (!succeeded).toNat
  hits := c.hits + hit.toNat

end Counters

/-- The limit on the depth of expressions where none is asked for. -/
def defaultLimit : Nat := 256

/-- What a session is set up with. -/
structure Settings where
  /-- How deep an expression may be, if there is a limit. -/
  limit : Option Nat := some defaultLimit
  /-- Whether the last expression is remembered. -/
  caching : Bool := true
  /-- Whether the console may use colours. -/
  color : Bool := true
  /-- The file that keeps the lines of the console between runs. -/
  history : Option String := none
deriving DecidableEq, Repr

/-- A calculator with its counters and its memory. -/
structure Session where
  calculator : Calculator
  caching : Bool
  counters : Counters := {}
  /-- The last text that was an expression, and the expression. -/
  last : Option (String × Expr) := none
  last_parse : ∀ entry ∈ last, calculator.parse entry.1 = .ok entry.2 := by simp
  last_caching : caching = false → last = none := by simp

namespace Session

/-- A new session. -/
def ofSettings (settings : Settings) : Session where
  calculator := ⟨settings.limit⟩
  caching := settings.caching

/-- The text whose expression is remembered. -/
def remembered (s : Session) : Option String := s.last.map Prod.fst

/-- The remembered expression, if it is that of the text. -/
def lookup? (s : Session) (text : String) : Option Expr :=
  s.last.bind fun (known, tree) => if known = text then some tree else none

/-- The session that remembers the expression of a text. -/
def remember (s : Session) (text : String) (tree : Expr) (h : s.calculator.parse text = .ok tree) :
    Session :=
  if hc : s.caching = true then
    { s with
      last := some (text, tree)
      last_parse := by simpa using h
      last_caching := by simp [hc] }
  else s

/-- The session with other counters. -/
def withCounters (s : Session) (counters : Counters) : Session := { s with counters }

/-- The value of a text, without counting: from memory if it is remembered, or
    else read, and then remembered. -/
def answer (s : Session) (text : String) : Except Failure Float × Session :=
  match s.lookup? text with
  | some tree => (tree.evaluate.mapError .faulty, s)
  | none =>
    match h : s.calculator.parse text with
    | .error e => (.error (.unreadable e), s)
    | .ok tree => (tree.evaluate.mapError .faulty, s.remember text tree h)

/-- The value of a text, and the session behind it. -/
def evaluate (s : Session) (text : String) : Except Failure Float × Session :=
  let (value, s') := s.answer text
  (value, s'.withCounters (s.counters.count (s.lookup? text).isSome value.isOk))

/-- The expression of a text; neither counted nor remembered. -/
def parse (s : Session) (text : String) : Except SyntaxError Expr := s.calculator.parse text

/-- The session with all counters at zero. -/
def resetCounters (s : Session) : Session := s.withCounters {}

/-- The session that remembers nothing. -/
def forget (s : Session) : Session :=
  { s with last := none, last_parse := by simp, last_caching := by simp }

end Session

end Reckon
