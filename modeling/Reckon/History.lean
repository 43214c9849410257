/-
  The history of the console: the lines that were entered, kept in a file.

  The file has a heading and then one line for each entry, in which backslashes
  and line feeds are escaped; a file without the heading has no escapes. An entry
  equal to the one before is not added, and only so many entries are kept.

  * `History.add` adds an entry, `History.ofText` reads a file;
  * `History.unescape?_escape`: an entry in the file reads back;
  * `History.saved?` is what is written after a run of the console: nothing if
    no entry was added.
-/
namespace Reckon

/-- The entries, oldest first. -/
structure History where
  entries : List String := []
  /-- Whether an entry was added since the file was read. -/
  changed : Bool := false
deriving DecidableEq, Repr

namespace History

/-- How many entries are kept. -/
def capacity : Nat := 100

/-- The first line of the file. -/
def heading : String := "#V2"

/-- Adds an entry, unless it is empty or equal to the last one. The oldest entry
    makes room where there is none. -/
def add (h : History) (entry : String) : History :=
  if entry.isEmpty || h.entries.getLast? == some entry then h
  else ⟨h.entries.drop (h.entries.length + 1 - capacity) ++ [entry], true⟩

/-! ## The file -/

/-- A character inside a line of the file. -/
def escapeChar (c : Char) : List Char :=
  match c with
  | '\\' => ['\\', '\\']
  | '\n' => ['\\', 'n']
  | c => [c]

/-- An entry with its escapes. -/
def escape (entry : List Char) : List Char := entry.flatMap escapeChar

/-- A line without its escapes; none if a backslash escapes anything else. -/
def unescape? : List Char → Option (List Char)
  | [] => some []
  | '\\' :: '\\' :: cs => (unescape? cs).map ('\\' :: ·)
  | '\\' :: 'n' :: cs => (unescape? cs).map ('\n' :: ·)
  | '\\' :: _ => none
  | c :: cs => (unescape? cs).map (c :: ·)

/-- **What is escaped reads back.** -/
theorem unescape?_escape (entry : List Char) : unescape? (escape entry) = some entry := by
  induction entry with
  | nil => rfl
  | cons c cs ih =>
    rw [escape, List.flatMap_cons, ← escape]
    by_cases hb : c = '\\'
    · subst hb
      simp [escapeChar, unescape?, ih]
    by_cases hn : c = '\n'
    · subst hn
      simp [escapeChar, unescape?, ih]
    have hc : escapeChar c = [c] := by
      unfold escapeChar
      split <;> simp_all
    rw [hc, List.singleton_append, unescape?, ih, Option.map_some]
    all_goals simp_all

/-- The entry of a line; one with a wrong escape stands for itself. -/
def ofLine (line : String) : String :=
  match unescape? line.toList with
  | some entry => String.ofList entry
  | none => line

/-- A line without the carriage return at its end. -/
def chomp (line : String) : String :=
  match line.toList.reverse with
  | '\r' :: cs => String.ofList cs.reverse
  | _ => line

/-- The lines of a text. Only a line that is ended by a line feed can have a
    carriage return before it. -/
def linesOf (text : String) : List String :=
  let pieces := text.splitOn "\n"
  pieces.dropLast.map chomp ++ (pieces.getLast?.filter (!·.isEmpty)).toList

/-- The history of a file. -/
def ofText (text : String) : History :=
  let entries := match linesOf text with
    | first :: more => if first = heading then more.map ofLine else first :: more
    | [] => []
  { entries.foldl add {} with changed := false }

/-- The file of a history. -/
def toText (h : History) : String :=
  String.join ((heading :: h.entries.map fun e => String.ofList (escape e.toList)).map (· ++ "\n"))

/-- What is written after some lines were entered, given what the file held. -/
def saved? (before : Option String) (lines : List String) : Option String :=
  let h := lines.foldl add ((before.map ofText).getD {})
  if h.changed then some h.toText else none

end History

end Reckon
