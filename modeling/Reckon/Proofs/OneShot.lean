/-
  What evaluating one expression leaves, under each combination of flags.

  The value is found through the memory of the session, the expression and its document
  without it.

  * `OneShot.Reports expression r o`: the outcome `o` reports the result `r`, as output or as
    complaints;
  * `OneShot.reports_run_value` and `OneShot.reports_run_shown`: what is reported is what the
    calculator finds, whatever the session remembers;
  * `OneShot.evaluate_render` and `OneShot.readJson?_shows`: the output of an expression has the
    value of the expression, and its document is read back as the expression;
  * `OneShot.modes_agree`: the expression cannot be shown iff its value is missing because of its
    syntax, and then both complain alike.
-/
import Reckon.Program
import Reckon.Proofs.Json
import Reckon.Proofs.Place
import Reckon.Proofs.Render
import Reckon.Proofs.Session

namespace Reckon

/-- What is shown of an expression in place of its value. -/
def Options.shows (o : Options) (tree : Expr) : String :=
  if o.has .json then tree.toJson.pretty else tree.render

namespace OneShot

/-- What is left of a result: output for a success and complaints for a failure, never both. The
    expression and its marker line stand in front of a message that is about the syntax. -/
inductive Reports (expression : String) : Except Failure String → Outcome → Prop where
  | success (text : String) : Reports expression (.ok text) ⟨0, text ++ "\n", ""⟩
  | unreadable (e : SyntaxError) :
      Reports expression (.error (.unreadable e))
        ⟨1, "", "  " ++ expression ++ "\n  " ++ e.span.marker ++ "\nError: " ++ e.problem.message ++
          "\n"⟩
  | faulty (f : ArithmeticFault) :
      Reports expression (.error (.faulty f)) ⟨1, "", "Error: " ++ f.message ++ "\n"⟩

variable {expression : String} {s : Session} {o : Options} {tree : Expr} {e : SyntaxError}

theorem reports_failure (expression : String) (f : Failure) :
    Reports expression (.error f) (failure expression f) := by
  cases f with
  | unreadable e =>
    have hlines : failure expression (.unreadable e) = ⟨1, "", "  " ++ expression ++ "\n  " ++
        e.span.marker ++ "\nError: " ++ e.problem.message ++ "\n"⟩ := by
      simp [failure, Failure.marker?, Failure.span?, Failure.message, ← String.toList_inj]
    rw [hlines]
    exact .unreadable e
  | faulty f =>
    have hline : failure expression (.faulty f) = ⟨1, "", "Error: " ++ f.message ++ "\n"⟩ := by
      simp [failure, Failure.marker?, Failure.span?, Failure.message]
    rw [hline]
    exact .faulty f

/-! ## The modes -/

theorem mode_of_not_ast (h : o.has .ast = false) : Program.mode o = .value := by
  simp [Program.mode, h]

/-- **The value that is reported is the one of the calculator,** remembered or not. -/
theorem reports_run_value (h : o.has .ast = false) (expression : String) (s : Session) :
    Reports expression
      ((s.calculator.evaluate expression).map fun x => "Result: " ++ Number.result x)
      (run (Program.mode o) expression s).1 := by
  rw [mode_of_not_ast h, ← Session.evaluate_fst, run]
  obtain ⟨result, s'⟩ := s.evaluate expression
  cases result with
  | ok value => exact .success _
  | error f => exact reports_failure expression f

theorem run_of_ast (h : o.has .ast = true) (expression : String) (s : Session) :
    run (Program.mode o) expression s =
      (match s.calculator.parse expression with
        | .ok tree => success (o.shows tree)
        | .error e => failure expression (.unreadable e), s) := by
  have hparse : s.parse expression = s.calculator.parse expression := rfl
  by_cases hjson : o.has .json = true
  · have hmode : Program.mode o = .document := by simp [Program.mode, h, hjson]
    rw [hmode, run, hparse]
    cases s.calculator.parse expression <;> simp [Options.shows, hjson]
  · have hmode : Program.mode o = .tree := by simp [Program.mode, h, hjson]
    rw [hmode, run, hparse]
    cases s.calculator.parse expression <;> simp [Options.shows, hjson]

/-- **The expression that is reported is the one of the calculator.** -/
theorem reports_run_shown (h : o.has .ast = true) (expression : String) (s : Session) :
    Reports expression (((s.calculator.parse expression).mapError .unreadable).map o.shows)
      (run (Program.mode o) expression s).1 := by
  rw [run_of_ast h]
  cases s.calculator.parse expression with
  | ok tree => exact .success _
  | error e => exact reports_failure expression (.unreadable e)

/-! ## How they go together -/

/-- **An expression that was read and then written has its value again,** read without a limit, if
    its literals are finite. -/
theorem evaluate_render {c : Calculator} (h : c.parse expression = .ok tree)
    (hfin : ∀ v ∈ tree.literals, v.isFinite = true) :
    (⟨none⟩ : Calculator).evaluate tree.render = tree.evaluate.mapError .faulty :=
  Calculator.evaluate_of_parse_ok (parse_render_of_parse h hfin)

/-- **An expression that was written as a document is read back from it.** -/
theorem readJson?_shows (hjson : o.has .json = true) (h : tree.Returns) :
    Expr.readJson? (o.shows tree) = some tree := by
  rw [Options.shows, if_pos hjson]
  exact (Expr.readJson?_texts h).2

theorem mapError_faulty_ne (r : Except ArithmeticFault Float) (e : SyntaxError) :
    r.mapError Failure.faulty ≠ .error (.unreadable e) := by
  cases r <;> nofun

/-- **The modes agree,** whatever the session remembers. Each outcome has the status zero and
    nothing but output, or the status one and nothing but complaints, with the expression and
    its marker line for errors of syntax only. Where the expression is asked for, the session
    stays as it is; there is none to show iff the value is missing because of the syntax,
    and then the complaints are those about the value. If it is shown, the value is missing
    iff evaluating the expression has a fault, which is complained of without a marker line;
    evaluating what is written of it comes to the same, and a document of it is read back as this
    expression. -/
theorem modes_agree (expression : String) (s : Session) (asked plain : Options)
    (hasked : asked.has .ast = true) (hplain : plain.has .ast = false) :
    let shown := run (Program.mode asked) expression s
    let valued := run (Program.mode plain) expression s
    Reports expression
        ((s.calculator.evaluate expression).map fun x => "Result: " ++ Number.result x) valued.1 ∧
      Reports expression (((s.calculator.parse expression).mapError .unreadable).map asked.shows)
        shown.1 ∧
      shown.2 = s ∧
      (shown.1.status = 1 ↔ ∃ e, (s.evaluate expression).1 = .error (.unreadable e)) ∧
      (shown.1.status = 1 → valued.1 = shown.1) ∧
      (shown.1.status = 0 → ∃ tree, s.calculator.parse expression = .ok tree ∧
        shown.1.output = asked.shows tree ++ "\n" ∧
        (valued.1.status = 1 ↔ ∃ f, tree.evaluate = .error f) ∧
        (∀ f, tree.evaluate = .error f → valued.1.complaints = "Error: " ++ f.message ++ "\n") ∧
        ((∀ v ∈ tree.literals, v.isFinite = true) →
          (⟨none⟩ : Calculator).evaluate tree.render = tree.evaluate.mapError .faulty) ∧
        (asked.has .json = true → tree.Returns →
          Expr.readJson? (asked.shows tree) = some tree)) := by
  intro shown valued
  have hvalued : Reports expression _ valued.1 := reports_run_value hplain expression s
  have hshown : Reports expression _ shown.1 := reports_run_shown hasked expression s
  refine ⟨hvalued, hshown, ?_, ?_⟩
  · change (run (Program.mode asked) expression s).2 = s
    rw [run_of_ast hasked]
  rw [Session.evaluate_fst]
  cases hp : s.calculator.parse expression with
  | error e =>
    have hevaluate := Calculator.evaluate_of_parse_error hp
    rw [hevaluate] at hvalued ⊢
    rw [hp] at hshown
    generalize shown.1 = o at hshown
    generalize valued.1 = o' at hvalued
    cases hshown
    cases hvalued
    exact ⟨by simp, fun _ => rfl, nofun⟩
  | ok tree =>
    have hevaluate := Calculator.evaluate_of_parse_ok hp
    rw [hevaluate] at hvalued ⊢
    rw [hp] at hshown
    generalize shown.1 = o at hshown
    generalize valued.1 = o' at hvalued
    cases hshown
    refine ⟨by simp [mapError_faulty_ne], nofun,
      fun _ => ⟨tree, rfl, rfl, ?_, ?_, evaluate_render hp, readJson?_shows⟩⟩
    · cases hv : tree.evaluate with
      | ok x =>
        rw [hv] at hvalued
        cases hvalued
        simp
      | error f =>
        rw [hv] at hvalued
        cases hvalued
        simp
    · intro f hf
      rw [hf] at hvalued
      cases hvalued
      rfl

/-- A session that was asked for this text, and remembers it though it has no value. -/
def askedBefore (text : String) : Session := ((Session.ofSettings {}).evaluate text).2

theorem modes_agree_divisionByZero :
    ({ switches := [.json, .ast] } : Options).has .ast = true ∧
      ({ switches := [.json] } : Options).has .ast = false ∧
      (run (Program.mode { switches := [.json, .ast] }) "1/0" (askedBefore "1/0")).1.status = 0 ∧
      (run (Program.mode { switches := [.json] }) "1/0" (askedBefore "1/0")).1 =
        ⟨1, "", "Error: Division by zero\n"⟩ ∧
      ∃ document,
        (run (Program.mode { switches := [.json, .ast] }) "1/0" (askedBefore "1/0")).1.output =
          document ++ "\n" ∧
        Expr.readJson? document = some (.binary .divide (.number 1) (.number 0)) := by
  obtain ⟨hvalued, hshown, -, -, -, houtput⟩ := modes_agree "1/0" (askedBefore "1/0")
    { switches := [.json, .ast] } { switches := [.json] } rfl rfl
  have hcalculator : (askedBefore "1/0").calculator = ⟨some 256⟩ :=
    Session.calculator_answer (.ofSettings {}) "1/0"
  have hparse : (⟨some 256⟩ : Calculator).parse "1/0" =
      .ok (.binary .divide (.number 1) (.number 0)) := by decide +kernel
  have hreturns : (Expr.binary .divide (.number 1) (.number 0)).Returns :=
    ⟨by decide +kernel, by decide +kernel⟩
  rw [hcalculator, hparse] at hshown houtput
  rw [hcalculator, Calculator.evaluate_of_parse_ok hparse] at hvalued
  have hstatus :
      (run (Program.mode { switches := [.json, .ast] }) "1/0" (askedBefore "1/0")).1.status =
        0 := by
    generalize (run _ "1/0" (askedBefore "1/0")).1 = o at hshown
    cases hshown
    rfl
  refine ⟨rfl, rfl, hstatus, ?_, ?_⟩
  · generalize (run _ "1/0" (askedBefore "1/0")).1 = o at hvalued
    cases hvalued
    rfl
  · obtain ⟨tree, htree, hdocument, -, -, -, hread⟩ := houtput hstatus
    cases htree
    exact ⟨_, hdocument, hread rfl hreturns⟩

end OneShot

end Reckon
