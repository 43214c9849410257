/-
  Commands: reserved words at the front of a line.

  * `Registry` lists the commands, longer words first, and of equally long ones
    the earlier first; this order is part of the type;
  * `Registry.register` adds a command, and `Registry.execute` runs the first one
    whose word is the line, or stands at its front with a space behind it. By the
    order that is the longest such word.
-/
import Reckon.Session
import Reckon.Text.Blank

namespace Reckon

/-- What comes of a command. -/
inductive Reply where
  | done
  | message (text : String)
  /-- The console is to end. -/
  | exit
  /-- The command was refused, for the reason shown. -/
  | refused (reason : String)
  | notACommand
deriving DecidableEq, Repr

/-- What a command does with its argument and the session. -/
abbrev Handler := String → Session → Reply × Session

/-- A reserved word and what it does. -/
structure Command where
  word : String
  handler : Handler

namespace Command

/-- The length by which commands are ordered: that of the word in UTF-8. -/
def size (c : Command) : Nat := c.word.utf8ByteSize

/-- What stands behind the word in a line that calls the command. -/
def rest? (c : Command) (line : String) : Option String :=
  let word := c.word.toList
  let text := line.toList
  if text = word || (word ++ [' ']).isPrefixOf text then
    some (String.ofList (text.drop word.length))
  else none

end Command

/-- Commands, longer words first. -/
structure Registry where
  commands : List Command := []
  sorted : commands.Pairwise (fun c d => d.size ≤ c.size) := by simp

namespace Registry

/-- Puts a command behind all commands that are not shorter. -/
def insert (c : Command) : List Command → List Command
  | [] => [c]
  | d :: rest => if c.size ≤ d.size then d :: insert c rest else c :: d :: rest

theorem mem_insert {c d : Command} {commands : List Command} :
    d ∈ insert c commands ↔ d = c ∨ d ∈ commands := by
  induction commands with
  | nil => simp [insert]
  | cons e rest ih =>
    unfold insert
    split
    · simp only [List.mem_cons, ih]
      constructor
      · rintro (h | h | h) <;> simp [h]
      · rintro (h | h | h) <;> simp [h]
    · simp

theorem sorted_insert {c : Command} {commands : List Command}
    (h : commands.Pairwise (fun c d => d.size ≤ c.size)) :
    (insert c commands).Pairwise (fun c d => d.size ≤ c.size) := by
  induction commands with
  | nil => simp [insert]
  | cons d rest ih =>
    obtain ⟨hd, hrest⟩ := List.pairwise_cons.1 h
    unfold insert
    split
    · next hle =>
      refine List.pairwise_cons.2 ⟨fun e he => ?_, ih hrest⟩
      rcases mem_insert.1 he with rfl | he
      · exact hle
      · exact hd e he
    · next hlt =>
      refine List.pairwise_cons.2 ⟨fun e he => ?_, h⟩
      rcases List.mem_cons.1 he with rfl | he
      · omega
      · have := hd e he
        omega

/-- The registry without commands. -/
def empty : Registry := {}

/-- Adds a command. -/
def register (r : Registry) (word : String) (handler : Handler) : Registry :=
  ⟨insert ⟨word, handler⟩ r.commands, sorted_insert r.sorted⟩

/-- The reserved words, in the order in which they are tried. -/
def words (r : Registry) : List String := r.commands.map (·.word)

/-- Runs the command that a line calls, with the trimmed rest of the line as its
    argument; a line that calls none leaves the session alone. -/
def execute (r : Registry) (line : String) (s : Session) : Reply × Session :=
  match r.commands.findSome? fun c => (c.rest? line).map (c.handler, ·) with
  | some (handler, rest) => handler (Text.trim rest) s
  | none => (.notACommand, s)

end Registry

end Reckon
