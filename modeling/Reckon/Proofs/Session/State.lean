/-
  The state of a session, from what it was asked.

  * `Settings.remembered?` is the text that a history of requests leaves in memory,
    and `Settings.counted` are the counters that it leaves;
  * `Session.remembered_serve` and `Session.counters_serve`: what one request does to
    memory and counters;
  * `Session.state_of_history`: behind each history they are what it says, the
    counters add up, and a session that was set back is a new one.
-/
import Mathlib.Data.List.DropRight
import Reckon.Proofs.Reserved
import Reckon.Proofs.Session

namespace Reckon

/-! ## Histories -/

namespace Request

/-- The text that a request evaluates, if it evaluates one. -/
def evaluated? : Request → Option String
  | evaluate text => some text
  | _ => none

/-- Whether a request sets the session back. -/
def setsBack : Request → Bool
  | command line => decide (Calls "stats reset" line)
  | _ => false

/-- Whether a request empties the memory. -/
def empties (request : Request) : Bool := request == forget || request.setsBack

/-- Whether a request sets the counters to zero. -/
def restarts (request : Request) : Bool := request == resetCounters || request.setsBack

end Request

namespace Settings

/-- The calculator of a session with these settings. -/
def calculator (settings : Settings) : Calculator := ⟨settings.limit⟩

/-- What is remembered behind a history: of the texts that were evaluated since the
    memory was emptied, the last one that is an expression. -/
def remembered? (settings : Settings) (history : List Request) : Option String :=
  let texts := (history.rtakeWhile (!·.empties)).filterMap Request.evaluated?
  if settings.caching then (texts.filter fun text => (settings.calculator.parse text).isOk).getLast?
  else none

/-- Each request of a history with what was remembered when it came. -/
def recalled (settings : Settings) (history : List Request) : List (Request × Option String) :=
  history.mapIdx fun i request => (request, settings.remembered? (history.take i))

/-- What is counted behind a history: of the evaluations since the counters were set to
    zero, all of them, those with and those without a value, and those of a text that
    was remembered. -/
def counted (settings : Settings) (history : List Request) : Counters :=
  let texts := (history.rtakeWhile (!·.restarts)).filterMap Request.evaluated?
  let recent := (settings.recalled history).rtakeWhile (!·.1.restarts)
  { evaluations := texts.length
    successes := texts.countP fun text => (settings.calculator.evaluate text).isOk
    failures := texts.countP fun text => !(settings.calculator.evaluate text).isOk
    hits := recent.countP fun (request, memory) =>
      request.evaluated?.isSome && memory == request.evaluated? }

variable (settings : Settings) (history : List Request) (request : Request)

theorem remembered?_concat : settings.remembered? (history ++ [request]) =
    if request.empties then none
    else match request.evaluated? with
      | some text =>
        if settings.caching && (settings.calculator.parse text).isOk then some text
        else settings.remembered? history
      | none => settings.remembered? history := by
  rw [remembered?, List.rtakeWhile_concat]
  by_cases he : request.empties = true
  · simp [he]
  · simp only [he, Bool.not_false, if_true, List.filterMap_append, List.filter_append]
    cases ht : request.evaluated? with
    | none => simp [ht, remembered?]
    | some text =>
      by_cases hp : (settings.calculator.parse text).isOk = true
      · by_cases hc : settings.caching = true <;> simp [ht, hp, hc, remembered?]
      · simp [ht, hp, remembered?]

theorem recalled_concat : settings.recalled (history ++ [request]) =
    settings.recalled history ++ [(request, settings.remembered? history)] := by
  rw [recalled, List.mapIdx_concat, List.take_left]
  congr 1
  rw [recalled, List.mapIdx_eq_mapIdx_iff]
  intro i hi
  rw [List.take_append_of_le_length (Nat.le_of_lt hi)]

theorem counted_concat : settings.counted (history ++ [request]) =
    if request.restarts then {}
    else match request.evaluated? with
      | some text =>
        (settings.counted history).count (settings.remembered? history == some text)
          (settings.calculator.evaluate text).isOk
      | none => settings.counted history := by
  rw [counted, recalled_concat, List.rtakeWhile_concat, List.rtakeWhile_concat]
  by_cases hr : request.restarts = true
  · simp [hr]
  · simp only [hr, Bool.not_false, if_true, List.filterMap_append, List.countP_append]
    cases ht : request.evaluated? with
    | none => simp [ht, counted]
    | some text =>
      have hhit : (settings.remembered? history == some text).toNat =
          if settings.remembered? history = some text then 1 else 0 := by
        by_cases hm : settings.remembered? history = some text <;> simp [hm]
      by_cases hv : (settings.calculator.evaluate text).isOk = true
      · simp [ht, hv, counted, Counters.count, hhit]
      · simp [ht, hv, counted, Counters.count, hhit]

end Settings

namespace Session

variable {s : Session} {text : String}

theorem isSome_lookup? (s : Session) (text : String) :
    (s.lookup? text).isSome = (s.remembered == some text) := by
  rw [lookup?, remembered]
  cases s.last with
  | none => rfl
  | some entry =>
    by_cases h : entry.1 = text <;> simp [h]

theorem remembered_remember {tree : Expr} (h : s.calculator.parse text = .ok tree) :
    (s.remember text tree h).remembered = if s.caching then some text else s.remembered := by
  rw [remember]
  split <;> rfl

theorem caching_answer (s : Session) (text : String) :
    (s.answer text).2.caching = s.caching := by
  rw [answer]
  split
  · rfl
  · split
    · rfl
    · rw [remember]
      split <;> rfl

theorem remembered_evaluate (s : Session) (text : String) : (s.evaluate text).2.remembered =
    if s.caching && (s.calculator.parse text).isOk then some text else s.remembered := by
  show (s.answer text).2.remembered = _
  rw [answer]
  split
  · next tree hl =>
    -- The text is the remembered one, which caching alone remembers.
    have hread := parse_of_lookup? hl
    have hsome := isSome_lookup? s text
    rw [hl] at hsome
    have hmem : s.remembered = some text := by simpa using hsome.symm
    have hc : s.caching = true := by
      by_contra hc
      have hlast := s.last_caching (by simpa using hc)
      rw [remembered, hlast] at hmem
      cases hmem
    simp [hread, hc, hmem, Except.isOk, Except.toBool]
  · split
    · next e hp => simp [hp, Except.isOk, Except.toBool]
    · next tree hp => simp [hp, Except.isOk, Except.toBool, remembered_remember]

theorem counters_evaluate (s : Session) (text : String) : (s.evaluate text).2.counters =
    s.counters.count (s.remembered == some text) (s.calculator.evaluate text).isOk := by
  rw [← isSome_lookup?, ← evaluate_fst]
  rfl

theorem remembered_serve (colored : Bool) (s : Session) (request : Request) :
    (s.serve colored request).2.remembered =
      if request.empties then none
      else match request.evaluated? with
        | some text =>
          if s.caching && (s.calculator.parse text).isOk then some text else s.remembered
        | none => s.remembered := by
  cases request with
  | evaluate text => exact remembered_evaluate s text
  | parse text => rfl
  | resetCounters => rfl
  | forget => rfl
  | command line =>
    show ((Registry.builtin colored).execute line s).2.remembered = _
    rw [Registry.session_execute_builtin]
    by_cases h : Calls "stats reset" line
    · simp [h, Request.empties, Request.setsBack, remembered, forget]
    · simp [h, Request.empties, Request.setsBack, Request.evaluated?]

theorem counters_serve (colored : Bool) (s : Session) (request : Request) :
    (s.serve colored request).2.counters =
      if request.restarts then {}
      else match request.evaluated? with
        | some text =>
          s.counters.count (s.remembered == some text) (s.calculator.evaluate text).isOk
        | none => s.counters := by
  cases request with
  | evaluate text => exact counters_evaluate s text
  | parse text => rfl
  | resetCounters => rfl
  | forget => rfl
  | command line =>
    show ((Registry.builtin colored).execute line s).2.counters = _
    rw [Registry.session_execute_builtin]
    by_cases h : Calls "stats reset" line
    · simp [h, Request.restarts, Request.setsBack, forget, resetCounters, withCounters]
    · simp [h, Request.restarts, Request.setsBack, Request.evaluated?]

theorem caching_serve (colored : Bool) (s : Session) (request : Request) :
    (s.serve colored request).2.caching = s.caching := by
  cases request with
  | evaluate text => exact caching_answer s text
  | parse text | resetCounters | forget => rfl
  | command line =>
    show ((Registry.builtin colored).execute line s).2.caching = s.caching
    rw [Registry.session_execute_builtin]
    split <;> rfl

end Session

/-- Counters that add up. -/
structure Counters.Consistent (c : Counters) : Prop where
  evaluations_eq : c.evaluations = c.successes + c.failures
  hits_le : c.hits ≤ c.evaluations

theorem Counters.Consistent.count {c : Counters} (h : c.Consistent) (hit succeeded : Bool) :
    (c.count hit succeeded).Consistent := by
  obtain ⟨heq, hle⟩ := h
  constructor
  · cases succeeded <;> simp only [Counters.count, Bool.not_true, Bool.not_false, Bool.toNat_true,
      Bool.toNat_false] <;> omega
  · cases hit <;> simp only [Counters.count, Bool.toNat_true, Bool.toNat_false] <;> omega

namespace Session

/-! ## Behind a history -/

/-- The session behind a history of requests to a new one. -/
def behind (settings : Settings) (colored : Bool) (history : List Request) : Session :=
  ((ofSettings settings).serveAll colored history).2

theorem serveAll_concat (colored : Bool) (s : Session) (history : List Request)
    (request : Request) : (s.serveAll colored (history ++ [request])).2 =
      ((s.serveAll colored history).2.serve colored request).2 := by
  induction history generalizing s with
  | nil => rfl
  | cons first history ih => exact ih (s.serve colored first).2

variable (settings : Settings) (colored : Bool) (history : List Request)

theorem behind_concat (request : Request) : behind settings colored (history ++ [request]) =
    ((behind settings colored history).serve colored request).2 :=
  serveAll_concat colored _ history request

theorem calculator_behind : (behind settings colored history).calculator = settings.calculator := by
  induction history using List.reverseRecOn with
  | nil => rfl
  | append_singleton history request ih => rw [behind_concat, calculator_serve, ih]

theorem caching_behind : (behind settings colored history).caching = settings.caching := by
  induction history using List.reverseRecOn with
  | nil => rfl
  | append_singleton history request ih => rw [behind_concat, caching_serve, ih]

theorem remembered_behind :
    (behind settings colored history).remembered = settings.remembered? history := by
  induction history using List.reverseRecOn with
  | nil => simp [behind, serveAll, ofSettings, remembered, Settings.remembered?]
  | append_singleton history request ih =>
    rw [behind_concat, remembered_serve, calculator_behind, caching_behind, ih,
      Settings.remembered?_concat]

theorem counters_behind :
    (behind settings colored history).counters = settings.counted history := by
  induction history using List.reverseRecOn with
  | nil => rfl
  | append_singleton history request ih =>
    rw [behind_concat, counters_serve, calculator_behind, remembered_behind, ih,
      Settings.counted_concat]

theorem consistent_behind : (behind settings colored history).counters.Consistent := by
  induction history using List.reverseRecOn with
  | nil => exact ⟨rfl, Nat.le_refl 0⟩
  | append_singleton history request ih =>
    rw [behind_concat, counters_serve]
    split
    · exact ⟨rfl, Nat.le_refl 0⟩
    · split
      · exact ih.count _ _
      · exact ih

theorem evaluations_behind_le : (behind settings colored history).counters.evaluations ≤
    (history.filterMap Request.evaluated?).length := by
  rw [counters_behind]
  exact ((List.rtakeWhile_suffix _ _).sublist.filterMap _).length_le

/-- A session that is set back is a new one. -/
theorem forget_resetCounters_eq {s : Session} (hcalculator : s.calculator = settings.calculator)
    (hcaching : s.caching = settings.caching) : s.resetCounters.forget = ofSettings settings := by
  obtain ⟨calculator, caching, counters, last, hparse, hlast⟩ := s
  cases hcalculator
  cases hcaching
  rfl

theorem serve_command_behind (line : String) :
    ((behind settings colored history).serve colored (.command line)).2 =
      if Calls "stats reset" line then ofSettings settings
      else behind settings colored history := by
  rw [← forget_resetCounters_eq settings (calculator_behind settings colored history)
    (caching_behind settings colored history)]
  exact Registry.session_execute_builtin colored line _

/-- **What a session remembers and counts is a function of its history.** It remembers
    the last expression that it evaluated since its memory was emptied, with or without
    a value. Its counters are those of the evaluations since they were set to zero, they
    add up, and there are no more of them than evaluations in the history. A text that is
    only read changes nothing, nor does a command, except for `stats reset`, behind
    which the session is a new one. -/
theorem state_of_history :
    (behind settings colored history).remembered = settings.remembered? history ∧
      (behind settings colored history).counters = settings.counted history ∧
      (behind settings colored history).counters.Consistent ∧
      (behind settings colored history).counters.evaluations ≤
        (history.filterMap Request.evaluated?).length ∧
      (∀ text, ((behind settings colored history).serve colored (.parse text)).2 =
        behind settings colored history) ∧
      ∀ line, ((behind settings colored history).serve colored (.command line)).2 =
        if Calls "stats reset" line then ofSettings settings
        else behind settings colored history :=
  ⟨remembered_behind settings colored history, counters_behind settings colored history,
    consistent_behind settings colored history, evaluations_behind_le settings colored history,
    fun _ => rfl, serve_command_behind settings colored history⟩

end Session

end Reckon
