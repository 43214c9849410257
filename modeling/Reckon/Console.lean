/-
  The console: lines in, text out.

  Each line, trimmed, is a command or an expression; empty lines are skipped. The
  console ends at a line that says so, or where the lines end.

  * `Console.handle` is what one line does;
  * `Console.run` is what all lines do, between the greeting and the farewell.
-/
import Reckon.Command.Builtin

namespace Reckon

/-- A session behind a console. -/
structure Console where
  session : Session
  registry : Registry
  /-- Whether the output is coloured. -/
  colored : Bool

/-- What one line brings about. -/
structure Response where
  output : String
  exits : Bool
deriving DecidableEq, Repr

namespace Console

open Text

/-- A console on a terminal, or on something that shows no colours. -/
def ofSettings (settings : Settings) (terminal : Bool) : Console :=
  let colored := terminal && settings.color
  ⟨.ofSettings settings, .builtin colored, colored⟩

/-- One line of output. -/
def line (text : String) : String := text ++ "\n"

/-- A complaint. -/
def complaint (colored : Bool) (text : String) : String :=
  line (Style.boldBrightRed.paint colored "Error:" ++ " " ++ Style.red.paint colored text)

/-- A failure: the text with the marker under it, if it has a place, and the
    message. -/
def failure (colored : Bool) (text : String) (f : Failure) : String :=
  let marked := match f.marker? with
    | some marker => line ("  " ++ text) ++ line ("  " ++ Style.brightRed.paint colored marker)
    | none => ""
  marked ++ complaint colored f.message

/-- The value of a text, or why it has none. -/
def outcome (colored : Bool) (text : String) : Except Failure Float → String
  | .ok value => line (Style.brightGreen.paint colored "Result:" ++ " " ++ Number.result value)
  | .error f => failure colored text f

/-- What one line does, as it stands. -/
def handle (c : Console) (text : String) : Response × Console :=
  match c.registry.execute text c.session with
  | (.notACommand, s) =>
    let (value, s) := s.evaluate text
    (⟨outcome c.colored text value, false⟩, { c with session := s })
  | (.done, s) => (⟨"", false⟩, { c with session := s })
  | (.message shown, s) => (⟨line shown, false⟩, { c with session := s })
  | (.refused reason, s) => (⟨complaint c.colored reason, false⟩, { c with session := s })
  | (.exit, s) => (⟨"", true⟩, { c with session := s })

/-- The greeting. -/
def banner (colored : Bool) : String :=
  let code := Style.cyan.paint colored
  line (Style.boldBrightCyan.paint colored "Welcome to Expression Calculator!") ++
  line ("Type expressions like: " ++ code "2 + 3 * 4" ++ ", " ++ code "2^3^2" ++ ", " ++
    code "sqrt(16) + sin(0)") ++
  line ("Type '" ++ Style.brightGreen.paint colored "help" ++ "' for more information, '" ++
    Style.brightRed.paint colored "quit" ++ "' or " ++ Style.brightRed.paint colored "Ctrl+C" ++
    " to exit.") ++
  line ""

/-- The farewell. -/
def farewell (colored : Bool) : String := line (Style.brightCyan.paint colored "Goodbye!")

/-- What invites a line at a terminal. -/
def prompt (colored : Bool) : String := Style.boldBrightMagenta.paint colored "calc>" ++ " "

/-- The lines that are handled: trimmed, and without the empty ones. -/
def handled (lines : List String) : List String := (lines.map trim).filter (!·.isEmpty)

/-- The output of trimmed lines up to the first one that ends the console, and
    the lines that were taken up, that one included. -/
def converse (c : Console) : List String → String × List String
  | [] => ("", [])
  | text :: more =>
    let (response, c') := c.handle text
    if response.exits then (response.output, [text])
    else
      let (output, taken) := c'.converse more
      (response.output ++ output, text :: taken)

/-- All output for some lines, and the lines that were taken up. -/
def run (c : Console) (lines : List String) : String × List String :=
  let (output, taken) := c.converse (handled lines)
  (banner c.colored ++ output ++ farewell c.colored, taken)

end Console

end Reckon
