/-
  Reading a JSON document from its marks.

  The marks are taken one by one; what is still open is kept on a stack, the
  innermost bracket first, each with what it holds so far.

  * `Json.Frame` is an open bracket, `Json.Mode` what may come next;
  * `Json.step` is what one mark does, `Json.build` what all do;
  * `Json.read?` is the document of a text, which is all of the text.
-/
import Reckon.Json.Scan

namespace Reckon.Json

/-- An open bracket with what it holds so far, last one first. -/
inductive Frame where
  | array (before : List Json)
  /-- Fields, and the name of the one that is being read. -/
  | object (before : List (Option (List Char) × Json)) (name : Option (List Char))

/-- What may come next. -/
inductive Mode where
  /-- A value. -/
  | value
  /-- The first item of an array, or its end. -/
  | firstItem
  /-- The first name of an object, or its end. -/
  | firstName
  /-- A further name of an object with these fields. -/
  | name (before : List (Option (List Char) × Json))
  /-- The colon behind a name. -/
  | colon
  /-- What stands behind a value. -/
  | complete (j : Json)

/-- The scalar that a mark is. -/
def Mark.scalar? : Mark → Option Json
  | .null => some .null
  | .bool value => some (.bool value)
  | .number text => some (.number text)
  | .string text => some (.string text)
  | _ => none

/-- What a mark does where a value may begin. -/
def beginValue (m : Mark) (stack : List Frame) : Option (Mode × List Frame) :=
  match m with
  | .openArray => some (.firstItem, stack)
  | .openObject => some (.firstName, stack)
  | m => m.scalar?.map (.complete ·, stack)

/-- What one mark does. An open bracket comes onto the stack with its first item
    or name. -/
def step (mode : Mode) (stack : List Frame) (m : Mark) : Option (Mode × List Frame) :=
  match mode, m, stack with
  | .value, m, stack => beginValue m stack
  | .firstItem, .closeArray, stack => some (.complete (.array []), stack)
  | .firstItem, m, stack => beginValue m (.array [] :: stack)
  | .firstName, .closeObject, stack => some (.complete (.object []), stack)
  | .firstName, .string name, stack => some (.colon, .object [] name :: stack)
  | .name before, .string name, stack => some (.colon, .object before name :: stack)
  | .colon, .colon, stack => some (.value, stack)
  | .complete j, .comma, .array before :: stack => some (.value, .array (j :: before) :: stack)
  | .complete j, .closeArray, .array before :: stack =>
    some (.complete (.array (j :: before).reverse), stack)
  | .complete j, .comma, .object before name :: stack =>
    some (.name ((name, j) :: before), stack)
  | .complete j, .closeObject, .object before name :: stack =>
    some (.complete (.object ((name, j) :: before).reverse), stack)
  | _, _, _ => none

/-- What all marks do: they make one document, with nothing left open. -/
def build (mode : Mode) (stack : List Frame) : List Mark → Option Json
  | [] => match mode, stack with
    | .complete j, [] => some j
    | _, _ => none
  | m :: ms => match step mode stack m with
    | some (mode, stack) => build mode stack ms
    | none => none

/-- The document that a text writes. -/
def read? (text : String) : Option Json := (scan text.toList).bind (build .value [])

end Reckon.Json
