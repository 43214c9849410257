/-
  The command line of the program.

  Words are taken from left to right. A word with two hyphens names a flag, one
  with a single hyphen is a row of flag letters, and all words behind `--` are
  plain. A flag that takes a value is settled only when the next flag or the
  expression is taken, or at the end, so that an unknown word behind it is
  complained of first.

  * `Flag` is what may be asked for, and `Options` is what was asked for;
  * `Stop` is why the program does not run: wrong usage, or a wish to be told
    about the program;
  * `CommandLine.take` takes one word, `CommandLine.read` all of them.
-/
import Reckon.Session
import Reckon.Decimal.Basic

namespace Reckon

/-- The flags that are given or not. -/
inductive Switch where
  | interactive
  /-- The expression is shown instead of its value. -/
  | ast
  /-- The expression is shown as a document. -/
  | json
  | unlimitedDepth
  | noCache
  | noColor
deriving DecidableEq, Repr

/-- The flags that take a value. -/
inductive Setting where
  | maxDepth
  | history
deriving DecidableEq, Repr

/-- The flags. -/
inductive Flag where
  | switch (s : Switch)
  | setting (s : Setting)
  | help
  | version
deriving DecidableEq, Repr

namespace Flag

/-- All flags with their names. -/
def names : List (String × Flag) :=
  [("interactive", switch .interactive), ("ast", switch .ast), ("json", switch .json),
   ("max-depth", setting .maxDepth), ("unlimited-depth", switch .unlimitedDepth),
   ("no-cache", switch .noCache), ("no-color", switch .noColor), ("history", setting .history),
   ("help", help), ("version", version)]

/-- The flag of a name. -/
def ofName? (name : String) : Option Flag := names.lookup name

/-- The flag of a letter; few flags have one. -/
def ofLetter? : Char → Option Flag
  | 'i' => some (switch .interactive)
  | 'h' => some help
  | 'V' => some version
  | _ => none

end Flag

/-- What is wrong with a command line. -/
inductive UsageError where
  /-- A flag that does not exist, or a second expression. -/
  | unknownArgument
  /-- A flag given twice, or two that exclude each other. -/
  | argumentConflict
  /-- A flag without the value that it takes. -/
  | missingValue
  /-- A value that is not what the flag takes. -/
  | badValue
  /-- A flag with a value that it does not take. -/
  | unwantedValue
  /-- A flag without the one that it goes with. -/
  | missingArgument
deriving DecidableEq, Repr

/-- Why the program does not run. -/
inductive Stop where
  | usage (e : UsageError)
  | help
  | version
deriving DecidableEq, Repr

/-- What was asked for. -/
structure Options where
  switches : List Switch := []
  maxDepth : Option Nat := none
  history : Option String := none
  expression : Option String := none
deriving DecidableEq, Repr

namespace Options

/-- Whether a flag was given. -/
def has (o : Options) (s : Switch) : Bool := o.switches.contains s

/-- The settings of the session. -/
def settings (o : Options) : Settings where
  limit := if o.has .unlimitedDepth then none else some (o.maxDepth.getD defaultLimit)
  caching := !o.has .noCache
  color := !o.has .noColor
  history := o.history

/-- The expression to be evaluated once; without one the console is started. -/
def oneShot (o : Options) : Option String := if o.has .interactive then none else o.expression

/-- The bound of the depths that may be asked for. -/
def depthBound : Nat := UInt64.size

/-- The depth that a value asks for: digits, perhaps behind a plus sign. -/
def depth? (value : String) : Option Nat :=
  let digits := match value.toList with
    | '+' :: digits => digits
    | digits => digits
  let depth := Decimal.ofDigits digits
  if !digits.isEmpty && digits.all Char.isDigit && depth < depthBound then some depth else none

/-- The options with one more flag, which must not have been given before. -/
def give (o : Options) (s : Switch) : Except Stop Options :=
  if o.has s then .error (.usage .argumentConflict)
  else .ok { o with switches := s :: o.switches }

/-- The options with the value of a flag, which must not have been given before. -/
def assign (o : Options) (s : Setting) (value : String) : Except Stop Options :=
  match s with
  | .maxDepth =>
    if o.maxDepth.isSome then .error (.usage .argumentConflict)
    else match depth? value with
      | some depth => .ok { o with maxDepth := some depth }
      | none => .error (.usage .badValue)
  | .history =>
    if o.history.isSome then .error (.usage .argumentConflict)
    else if value.isEmpty then .error (.usage .missingValue)
    else .ok { o with history := some value }

/-- The options, if they go together. -/
def check (o : Options) : Except Stop Options :=
  if o.has .interactive && o.expression.isSome || o.has .unlimitedDepth && o.maxDepth.isSome then
    .error (.usage .argumentConflict)
  else if o.has .json && !o.has .ast then .error (.usage .missingArgument)
  else .ok o

end Options

/-- The forms of a word. -/
inductive Word where
  | separator
  | long (name : String) (attached : Option String)
  | short (letters : List Char)
  | plain (text : String)

/-- The form of a word. A single hyphen is plain. -/
def Word.ofString (s : String) : Word :=
  match s.toList with
  | ['-', '-'] => .separator
  | '-' :: '-' :: cs =>
    let attached := match cs.dropWhile (· ≠ '=') with
      | [] => none
      | _ :: value => some (String.ofList value)
    .long (String.ofList (cs.takeWhile (· ≠ '='))) attached
  | '-' :: c :: cs => .short (c :: cs)
  | _ => .plain s

/-- A command line that is taken up to some word. -/
structure CommandLine where
  options : Options := {}
  /-- A flag that is still to be settled, with its value if that was taken. -/
  pending : Option (Setting × Option String) := none
  /-- Whether all further words are plain. -/
  onlyPlain : Bool := false

namespace CommandLine

/-- Settles the flag that is still to be settled. -/
def settle (c : CommandLine) : Except Stop CommandLine :=
  match c.pending with
  | none => .ok c
  | some (_, none) => .error (.usage .missingValue)
  | some (s, some value) => do
    let options ← c.options.assign s value
    return { c with options, pending := none }

/-- Takes a flag, with the value attached to it if there is one. -/
def takeFlag (c : CommandLine) (f : Flag) (attached : Option String) : Except Stop CommandLine :=
  match f, attached with
  | .setting s, attached => do
    let c ← c.settle
    let c := { c with pending := some (s, attached) }
    if attached.isSome then c.settle else return c
  | _, some _ => .error (.usage .unwantedValue)
  | .switch s, none => do
    let c ← c.settle
    return { c with options := ← c.options.give s }
  | .help, none => do
    let _ ← c.settle
    .error .help
  | .version, none => do
    let _ ← c.settle
    .error .version

/-- Takes the flag that a name or letter stands for. -/
def takeNamed (c : CommandLine) (f : Option Flag) (attached : Option String) :
    Except Stop CommandLine :=
  match f with
  | some f => c.takeFlag f attached
  | none => .error (.usage .unknownArgument)

/-- Takes the expression. -/
def takeExpression (c : CommandLine) (text : String) : Except Stop CommandLine :=
  if c.options.expression.isSome then .error (.usage .unknownArgument)
  else do
    let c ← c.settle
    return { c with options := { c.options with expression := some text } }

/-- Takes one word. A plain one is the value of the flag before it, if that is
    without its value and plain words are not all there is. -/
def take (c : CommandLine) (word : String) : Except Stop CommandLine :=
  if c.onlyPlain then c.takeExpression word
  else match Word.ofString word, c.pending with
    | .separator, _ => .ok { c with onlyPlain := true }
    | .long name attached, _ => c.takeNamed (Flag.ofName? name) attached
    | .short letters, _ =>
      letters.foldlM (fun c letter => c.takeNamed (Flag.ofLetter? letter) none) c
    | .plain text, some (s, none) => .ok { c with pending := some (s, some text) }
    | .plain text, _ => c.takeExpression text

/-- The options of a command line. -/
def read (words : List String) : Except Stop Options := do
  let c ← words.foldlM take {}
  let c ← c.settle
  c.options.check

end CommandLine

end Reckon
