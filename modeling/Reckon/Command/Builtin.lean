/-
  The commands of the console: `help`, `quit`, `exit`, `stats` and `stats reset`.

  * `Registry.builtin` holds them, with or without colours in the help;
  * `helpText` lists the operators, functions, examples and commands.
-/
import Reckon.Command
import Reckon.Text.Style

namespace Reckon

/-- A text with spaces behind it up to a width. Escape sequences count, so that a
    coloured text of this width or more gets none. -/
def padTo (width : Nat) (text : String) : String :=
  text ++ String.ofList (List.replicate (width - text.length) ' ')

/-- The help, by lines. -/
def helpLines (colored : Bool) : List String :=
  let heading := Text.Style.green.paint colored
  let code := Text.Style.cyan.paint colored
  let row (width : Nat) (entry : String × String) : String :=
    "  " ++ padTo width (code entry.1) ++ " " ++ entry.2
  [Text.Style.bold.paint colored "=== Expression Calculator ===",
    heading "Supported operations:"] ++
  [("+", "Addition"), ("-", "Subtraction"), ("*", "Multiplication"), ("/", "Division"),
    ("^", "Power (right-associative)"), ("( )", "Parentheses")].map (row 4) ++
  ["", heading "Functions:"] ++
  [("sqrt(x)", "Square root"), ("sin(x)", "Sine (radians)"), ("cos(x)", "Cosine (radians)"),
    ("tan(x)", "Tangent (radians)"), ("log(x)", "Natural logarithm"),
    ("exp(x)", "e raised to x")].map (row 8) ++
  ["", heading "Examples:"] ++
  ["2 + 3 * 4", "(2 + 3) * 4", "2^3^2", "-5 + 3", "sqrt(16) + sin(0)"].map ("  " ++ code ·) ++
  ["", heading "Commands:"] ++
  [("help", "Show this help"), ("stats", "Show session statistics"),
    ("stats reset", "Reset statistics and cache"),
    ("quit/exit", "Exit the calculator")].map (row 12)

/-- The help. -/
def helpText (colored : Bool) : String := "\n".intercalate (helpLines colored)

namespace Handler

/-- Shows the help. -/
def help (colored : Bool) : Handler := fun _ s => (.message (helpText colored), s)

/-- Ends the console. -/
def quit : Handler := fun _ s => (.exit, s)

/-- Shows the counters; takes no argument. -/
def stats : Handler := fun argument s =>
  if argument.isEmpty then (.message s.counters.render, s)
  else (.refused s!"Unknown stats option '{argument}'", s)

/-- Sets the counters to zero and forgets the last expression. -/
def statsReset : Handler := fun _ s => (.done, s.resetCounters.forget)

end Handler

/-- The commands of the console. -/
def Registry.builtin (colored : Bool) : Registry :=
  empty
    |>.register "help" (Handler.help colored)
    |>.register "quit" Handler.quit
    |>.register "exit" Handler.quit
    |>.register "stats" Handler.stats
    |>.register "stats reset" Handler.statsReset

end Reckon
