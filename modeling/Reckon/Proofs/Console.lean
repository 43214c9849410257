/-
  The console, line by line.

  * `Handles limit c text r` lists what a line can do at a console without colours, and
    `Console.handles`: what a line does is one of these;
  * `Console.outputs` is what each of some lines brings about, one after the other, and
    `Console.converse_eq`: a conversation is that, up to the first line that ends it;
  * `OneShot.written_run`: what evaluating one expression writes;
  * `Console.run_eq`: a run of the console is the greeting, the answers to the lines up
    to the first one that ends it, and the farewell, and each line that is no command is
    answered as if it alone were evaluated.
-/
import Reckon.Console
import Reckon.OneShot
import Reckon.Proofs.Reserved
import Reckon.Proofs.Session

namespace Reckon

/-! ## One expression -/

/-- What is written: the output of a success, or the complaints of a failure. -/
def OneShot.Outcome.written (o : Outcome) : String :=
  if o.status = 0 then o.output else o.complaints

theorem OneShot.written_success (text : String) (value : Float) :
    (success ("Result: " ++ Number.result value)).written =
      Console.outcome false text (.ok value) := by
  simp [success, Outcome.written, Console.outcome, Console.line]

theorem OneShot.written_failure (text : String) (f : Failure) :
    (failure text f).written = Console.outcome false text (.error f) := by
  simp only [failure, Outcome.written, Console.outcome, Console.failure, Console.complaint,
    Console.line]
  cases f.marker? <;> simp [← String.toList_inj]

/-- Evaluating one expression writes what the console shows for it. -/
theorem OneShot.written_run (s : Session) (text : String) :
    (run .value text s).1.written = Console.outcome false text (s.calculator.evaluate text) := by
  rw [← Session.evaluate_fst, run]
  obtain ⟨value, s'⟩ := s.evaluate text
  cases value with
  | ok value => exact written_success text value
  | error f => exact written_failure text f

/-! ## One line -/

variable {limit : Option Nat} {c : Console} {text : String}

/-- A console without colours whose expressions may be this deep. -/
structure Console.Plain (limit : Option Nat) (c : Console) : Prop where
  registry : c.registry = .builtin false
  colored : c.colored = false
  calculator : c.session.calculator = ⟨limit⟩

/-- What a line can do at a console without colours. -/
inductive Handles (limit : Option Nat) (c : Console) (text : String) :
    Response × Console → Prop where
  | reply (h : leadingWord text ∈ reservedWords) (hexit : leadingWord text ∉ exitWords)
      (output : String) (s : Session) (hs : s.calculator = ⟨limit⟩) :
      Handles limit c text (⟨output, false⟩, { c with session := s })
  | exit (h : leadingWord text ∈ exitWords) : Handles limit c text (⟨"", true⟩, c)
  | value (h : leadingWord text ∉ reservedWords) (s : Session) (hs : s.calculator = ⟨limit⟩) :
      Handles limit c text
        (⟨Console.outcome false text (Calculator.evaluate ⟨limit⟩ text), false⟩,
          { c with session := s })

namespace Console

theorem plain_ofSettings {settings : Settings} {terminal : Bool}
    (h : (terminal && settings.color) = false) :
    (ofSettings settings terminal).Plain settings.limit := by
  rw [ofSettings, h]
  exact ⟨rfl, rfl, rfl⟩

/-- **What a line does.** -/
theorem handles (hc : c.Plain limit) (text : String) : Handles limit c text (c.handle text) := by
  obtain ⟨session, registry, colored⟩ := c
  obtain ⟨rfl, rfl, hlimit⟩ := hc
  dsimp only at hlimit
  have hmem : "stats" ∈ reservedWords ∧ "stats" ∉ exitWords := by decide
  have hhelp : "help" ∈ reservedWords ∧ "help" ∉ exitWords := by decide
  rw [handle]
  dsimp only
  generalize hresult : (Registry.builtin false).execute text session = result
  have h := hresult ▸ Registry.executes_builtin false text session
  cases h with
  | reset h =>
    rw [← leadingWord_of_calls_statsReset h] at hmem
    exact .reply hmem.1 hmem.2 "" _ hlimit
  | stats h | unknown h =>
    rw [← h] at hmem
    exact .reply hmem.1 hmem.2 _ _ hlimit
  | help h =>
    rw [← h] at hhelp
    exact .reply hhelp.1 hhelp.2 _ _ hlimit
  | quit h => exact .exit h
  | none h =>
    have hvalue := Session.evaluate_fst session text
    have hs := Session.calculator_answer session text
    rw [hlimit] at hvalue hs
    dsimp only
    rw [hvalue]
    exact .value h _ hs

theorem plain_handle (hc : c.Plain limit) (text : String) : (c.handle text).2.Plain limit := by
  have h := handles hc text
  generalize c.handle text = result at h
  cases h with
  | reply _ _ output s hs => exact ⟨hc.registry, hc.colored, hs⟩
  | exit _ => exact hc
  | value _ s hs => exact ⟨hc.registry, hc.colored, hs⟩

theorem exits_handle (hc : c.Plain limit) (text : String) :
    (c.handle text).1.exits = exitWords.contains (leadingWord text) := by
  have h := handles hc text
  generalize c.handle text = result at h
  cases h with
  | reply _ hexit output s _ => simp [hexit]
  | exit h => simp [h]
  | value h s _ =>
    have hexit : leadingWord text ∉ exitWords := fun hmem => h (exitWords_subset hmem)
    simp [hexit]

theorem output_of_exits (hc : c.Plain limit) (h : leadingWord text ∈ exitWords) :
    (c.handle text).1.output = "" := by
  have hh := handles hc text
  generalize c.handle text = result at hh
  cases hh with
  | reply _ hexit output s _ => exact absurd h hexit
  | exit _ => rfl
  | value hres s _ => exact absurd (exitWords_subset h) hres

/-- A line that is no command is answered by the value of its expression. -/
theorem output_of_not_reserved (hc : c.Plain limit) (h : leadingWord text ∉ reservedWords) :
    (c.handle text).1.output = outcome false text (Calculator.evaluate ⟨limit⟩ text) := by
  have hh := handles hc text
  generalize c.handle text = result at hh
  cases hh with
  | reply hres _ output s _ => exact absurd hres h
  | exit hexit => exact absurd (exitWords_subset hexit) h
  | value _ s _ => rfl

/-! ## A conversation -/

/-- What each of some lines brings about, one after the other. -/
def outputs (c : Console) : List String → List String
  | [] => []
  | text :: more => (c.handle text).1.output :: (c.handle text).2.outputs more

/-- The lines in front of the first one that ends the console. -/
def beforeExit (texts : List String) : List String :=
  texts.takeWhile fun text => !exitWords.contains (leadingWord text)

theorem converse_eq (hc : c.Plain limit) (texts : List String) :
    c.converse texts =
      (String.join (c.outputs (beforeExit texts)), texts.take ((beforeExit texts).length + 1)) := by
  induction texts generalizing c with
  | nil => rfl
  | cons text more ih =>
    rw [converse]
    dsimp only
    rw [exits_handle hc, beforeExit]
    by_cases h : leadingWord text ∈ exitWords
    · simp [h, output_of_exits hc h, outputs]
    · have hmore := ih (plain_handle hc text)
      rw [beforeExit] at hmore
      simp [h, hmore, outputs]

theorem forall₂_outputs (hc : c.Plain limit) (texts : List String) :
    List.Forall₂ (fun text output => leadingWord text ∉ reservedWords →
      output = outcome false text (Calculator.evaluate ⟨limit⟩ text)) texts (c.outputs texts) := by
  induction texts generalizing c with
  | nil => exact .nil
  | cons text more ih =>
    exact .cons (fun h => output_of_not_reserved hc h) (ih (plain_handle hc text))

theorem length_beforeExit_lt {texts : List String}
    (h : ∃ text ∈ texts, leadingWord text ∈ exitWords) :
    (beforeExit texts).length < texts.length := by
  obtain ⟨text, hmem, hexit⟩ := h
  have hprefix : beforeExit texts <+: texts := List.takeWhile_prefix _
  refine Nat.lt_of_le_of_ne hprefix.length_le fun hlen => ?_
  rw [← hprefix.eq_of_length hlen] at hmem
  have hall := List.all_eq_true.1 List.all_takeWhile text hmem
  simp [hexit] at hall

/-- Lines behind one that ends the console are not heard. -/
theorem beforeExit_append {texts : List String}
    (h : ∃ text ∈ texts, leadingWord text ∈ exitWords) (more : List String) :
    beforeExit (texts ++ more) = beforeExit texts := by
  rw [beforeExit, List.takeWhile_append]
  exact if_neg (Nat.ne_of_lt (length_beforeExit_lt h))

theorem handled_append (lines more : List String) :
    handled (lines ++ more) = handled lines ++ handled more := by
  simp [handled]

theorem run_of_plain (hc : c.Plain limit) (lines : List String) : c.run lines =
    (banner false ++ String.join (c.outputs (beforeExit (handled lines))) ++ farewell false,
      (handled lines).take ((beforeExit (handled lines)).length + 1)) := by
  rw [run, converse_eq hc, hc.colored]

theorem run_append (hc : c.Plain limit) {lines : List String}
    (h : ∃ text ∈ handled lines, leadingWord text ∈ exitWords) (later : List String) :
    c.run (lines ++ later) = c.run lines := by
  rw [run_of_plain hc, run_of_plain hc, handled_append, beforeExit_append h,
    List.take_append_of_le_length (length_beforeExit_lt h)]

theorem banner_false : banner false =
    "Welcome to Expression Calculator!\n" ++
      "Type expressions like: 2 + 3 * 4, 2^3^2, sqrt(16) + sin(0)\n" ++
        "Type 'help' for more information, 'quit' or Ctrl+C to exit.\n\n" := by
  simp [banner, line, Text.Style.paint]

theorem farewell_false : farewell false = "Goodbye!\n" := rfl

/-- **A run of the console without colours.** It is the greeting, what each line up to
    the first one that ends the console brings about, and the farewell. Lines behind
    that one change nothing. A line that is no command is answered as if it alone were
    evaluated in a new session with the same limit. -/
theorem run_eq (settings settings' : Settings) (terminal : Bool) (lines : List String)
    (hcolor : (terminal && settings.color) = false) (hlimit : settings'.limit = settings.limit) :
    banner false =
        "Welcome to Expression Calculator!\n" ++
          "Type expressions like: 2 + 3 * 4, 2^3^2, sqrt(16) + sin(0)\n" ++
            "Type 'help' for more information, 'quit' or Ctrl+C to exit.\n\n" ∧
      farewell false = "Goodbye!\n" ∧
      (ofSettings settings terminal).run lines =
        (banner false ++
          String.join ((ofSettings settings terminal).outputs (beforeExit (handled lines))) ++
            farewell false,
          (handled lines).take ((beforeExit (handled lines)).length + 1)) ∧
      List.Forall₂
        (fun text output => leadingWord text ∉ reservedWords →
          output = (OneShot.run .value text (.ofSettings settings')).1.written)
        (beforeExit (handled lines))
        ((ofSettings settings terminal).outputs (beforeExit (handled lines))) ∧
      ((∃ text ∈ handled lines, leadingWord text ∈ exitWords) → ∀ later,
        (ofSettings settings terminal).run (lines ++ later) =
          (ofSettings settings terminal).run lines) := by
  have hc := plain_ofSettings hcolor
  refine ⟨banner_false, farewell_false, run_of_plain hc lines, ?_,
    fun h later => run_append hc h later⟩
  refine (forall₂_outputs hc _).imp fun text output h hres => ?_
  rw [OneShot.written_run, h hres, ← hlimit]
  rfl

/-- Three lines, the second one empty and the third one the end. -/
def threeLines : List String := [" 2) ", "", "quit now"]

theorem run_threeLines :
    (true && ({ color := false } : Settings).color) = false ∧
      ({} : Settings).limit = ({ color := false } : Settings).limit ∧
      (∃ text ∈ handled threeLines, leadingWord text ∈ exitWords) ∧
      (ofSettings { color := false } true).run (threeLines ++ ["1"]) =
        ("Welcome to Expression Calculator!\n" ++
            "Type expressions like: 2 + 3 * 4, 2^3^2, sqrt(16) + sin(0)\n" ++
              "Type 'help' for more information, 'quit' or Ctrl+C to exit.\n\n" ++
          (OneShot.run .value "2)" (.ofSettings {})).1.written ++ "Goodbye!\n",
          ["2)", "quit now"]) := by
  have hhandled : handled threeLines = ["2)", "quit now"] := by decide
  have hbefore : beforeExit ["2)", "quit now"] = ["2)"] := by decide
  have hexit : ∃ text ∈ handled threeLines, leadingWord text ∈ exitWords := by decide
  obtain ⟨hbanner, hfarewell, hrun, hanswers, hlater⟩ :=
    run_eq { color := false } {} true threeLines rfl rfl
  rw [hhandled, hbefore, hbanner, hfarewell] at hrun
  rw [hhandled, hbefore] at hanswers
  obtain ⟨output, rest, hvalue, hrest, houtputs⟩ := List.forall₂_cons_left_iff.1 hanswers
  cases hrest
  rw [hvalue (by decide)] at houtputs
  refine ⟨rfl, rfl, hexit, ?_⟩
  rw [hlater hexit, hrun, houtputs, String.join_cons, String.join_nil, String.append_empty]
  rfl

end Console

end Reckon
