/-
  Records and variants as JSON documents.

  A record is an object with a field for each of its names. A variant is an
  object whose single field is named by its tag and holds its content, or just
  its tag where it has none.

  * `Json.ofRecord` and `Json.ofVariant` write them, with texts, counts and
    doubles as their leaves;
  * `Json.fields?`, `Json.variant?` and `Json.tag?` take them apart, and are more
    lenient: a record may also be an array, and have fields of other names;
  * `Json.nesting` is how many brackets of records and variants may stand inside
    each other in a document that is read.
-/
import Reckon.Json.Numeral
import Reckon.Json
import Reckon.Number

namespace Reckon.Json

/-- How many brackets of records and variants may stand inside each other in a
    document that is read. Brackets inside skipped fields do not count. -/
def nesting : Nat := 127

/-! ## Writing -/

/-- A text. -/
def ofText (s : String) : Json := string (some s.toList)

/-- A count. -/
def ofNat (n : Nat) : Json := number (Nat.toDigits 10 n)

/-- A double; what is not finite has no number. -/
def ofFloat (x : Float) : Json :=
  match Number.document x with
  | some text => number text.toList
  | none => null

/-- A record, by its fields. -/
def ofRecord (fields : List (String × Json)) : Json :=
  object (fields.map fun (name, content) => (some name.toList, content))

/-- A variant with content. -/
def ofVariant (tag : String) (content : Json) : Json := ofRecord [(tag, content)]

/-! ## Taking apart -/

/-- The characters of a text. -/
def text? : Json → Option String
  | string text => text.map String.ofList
  | _ => none

/-- The value of a count. -/
def natural? : Json → Option Nat
  | number text => (Numeral.ofChars? text).bind Numeral.natural?
  | _ => none

/-- The value of a number. -/
def double? : Json → Option Float
  | number text => (Numeral.ofChars? text).bind Numeral.double?
  | _ => none

/-- The tag and the content of a variant with content. -/
def variant? : Json → Option (String × Json)
  | object [(some tag, content)] => some (String.ofList tag, content)
  | _ => none

/-- The tag of a variant without content, within so many brackets: a text, or an
    object that holds nothing under it. -/
def tag? (nesting : Nat) : Json → Option String
  | string text => text.map String.ofList
  | object [(some tag, null)] => if nesting = 0 then none else some (String.ofList tag)
  | _ => none

/-- The content of the only field of a name. -/
def only? (fields : List (Option (List Char) × Json)) (name : String) : Option Json :=
  match fields.filter (·.1 == some name.toList) with
  | [(_, content)] => some content
  | _ => none

/-- The contents of a record, in the order of its names: the items of an array,
    one for each name, or the contents of an object in which each name occurs
    once. Fields of other names are skipped. -/
def fields? (names : List String) : Json → Option (List Json)
  | array items => if items.length = names.length then some items else none
  | object fields => if fields.all (·.1.isSome) then names.mapM (only? fields) else none
  | _ => none

end Reckon.Json
