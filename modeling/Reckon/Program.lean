/-
  The program: one run, from its options, its input and its history file to its
  output.

  * `Program.run` evaluates the expression that is given, or else runs the
    console on the lines of the input;
  * `Program.mode` is what is shown of a given expression, and `Program.linesOf`
    are the lines of the input.
-/
import Reckon.CommandLine
import Reckon.Console
import Reckon.History
import Reckon.OneShot
import Reckon.Text.Erase

namespace Reckon.Program

/-- What a run leaves behind. -/
structure Result extends OneShot.Outcome where
  /-- What is written to the history file, if anything is. -/
  history : Option String
deriving DecidableEq, Repr

/-- The name and version of the program. -/
def version : String := "exprcalc 0.1.0\n"

/-- What is shown of a given expression. -/
def mode (o : Options) : OneShot.Mode :=
  if !o.has .ast then .value else if o.has .json then .document else .tree

/-- The lines of an input, as they stand when they are entered. -/
def linesOf (input : String) : List String := (input.splitOn "\n").map Text.erase

/-- A run, with or without colours on the output, given the input and what the
    history file holds. -/
def run (o : Options) (terminal : Bool) (input : String) (history : Option String) : Result :=
  match o.oneShot with
  | some expression => ⟨(OneShot.run (mode o) expression (.ofSettings o.settings)).1, none⟩
  | none =>
    let (output, taken) := (Console.ofSettings o.settings terminal).run (linesOf input)
    ⟨⟨0, output, ""⟩, if o.history.isSome then History.saved? history taken else none⟩

end Reckon.Program
