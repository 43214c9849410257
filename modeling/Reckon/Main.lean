/-
  The program at a command line.

  Here is all that touches the outside: arguments, the standard streams and the
  history file. The console is run line by line, so that answers come as lines
  are entered.
-/
import Reckon.Program

namespace Reckon

/-- What the user is told about wrong usage. -/
def UsageError.message : UsageError → String
  | unknownArgument => "unexpected argument"
  | argumentConflict => "an argument is repeated or conflicts with another one"
  | missingValue => "a value is required"
  | badValue => "invalid value"
  | unwantedValue => "unexpected value"
  | missingArgument => "a required argument is missing"

namespace Main

/-- The help on the command line. -/
def usage : String :=
  "Evaluate arithmetic expressions with + - * / ^, parentheses and\n" ++
  "sqrt, sin, cos, tan, log, exp. Starts an interactive session when no\n" ++
  "expression is given.\n\n" ++
  "Usage: exprcalc [OPTIONS] [EXPRESSION]\n\n" ++
  "Options:\n" ++
  "  -i, --interactive        Start interactive mode (the default without an expression)\n" ++
  "      --ast                Print the parsed tree instead of evaluating it\n" ++
  "      --json               With --ast, print the tree as JSON\n" ++
  "      --max-depth <DEPTH>  Maximum nesting depth of parentheses, signs and exponents\n" ++
  "      --unlimited-depth    Disable the nesting depth limit\n" ++
  "      --no-cache           Do not reuse the parse of a repeated expression\n" ++
  "      --no-color           Disable colored output\n" ++
  "      --history <FILE>     File to load and save history\n" ++
  "  -h, --help               Print help\n" ++
  "  -V, --version            Print version\n"

/-- The text of a file, if it can be read. -/
def readFile? (path : String) : IO (Option String) :=
  try some <$> IO.FS.readFile path catch _ => pure none

/-- Writes a file, if it can be written. -/
def writeFile (path text : String) : IO Unit :=
  try IO.FS.writeFile path text catch _ => pure ()

/-- Runs the console on the lines of the input, last line taken first. -/
partial def converse (c : Console) (taken : List String) : IO (List String) := do
  let input ← IO.getStdin
  let output ← IO.getStdout
  if ← input.isTty then
    output.putStr (Console.prompt c.colored)
    output.flush
  let line ← input.getLine
  if line.isEmpty then return taken
  let text := Text.trim (Text.erase line)
  if text.isEmpty then converse c taken
  else
    let (response, c) := c.handle text
    output.putStr response.output
    if response.exits then return text :: taken else converse c (text :: taken)

/-- Runs the console and keeps its history. -/
def runConsole (o : Options) (terminal : Bool) : IO UInt32 := do
  let console := Console.ofSettings o.settings terminal
  let before ← match o.history with
    | some path => readFile? path
    | none => pure none
  IO.print (Console.banner console.colored)
  let taken ← converse console []
  IO.print (Console.farewell console.colored)
  if let some path := o.history then
    if let some text := History.saved? before taken.reverse then writeFile path text
  return 0

/-- Evaluates the expression that is given, or runs the console. -/
def run (o : Options) : IO UInt32 := do
  match o.oneShot with
  | none => runConsole o (← (← IO.getStdout).isTty)
  | some _ =>
    let result := Program.run o false "" none
    IO.print result.output
    IO.eprint result.complaints
    return result.status.toUInt32

end Main

end Reckon

/-- The program. -/
def main (words : List String) : IO UInt32 := do
  match Reckon.CommandLine.read words with
  | .ok options => Reckon.Main.run options
  | .error .help =>
    IO.print Reckon.Main.usage
    return 0
  | .error .version =>
    IO.print Reckon.Program.version
    return 0
  | .error (.usage e) =>
    IO.eprintln ("error: " ++ e.message)
    return 2
