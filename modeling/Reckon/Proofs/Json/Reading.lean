/-
  Documents are read back from the texts that they are written as.

  * `Json.Legible j`: the numbers of `j` can be taken apart, and its texts and names have
    characters;
  * `Continues cs ms`: the text `cs` is made of the marks `ms`, and a number may stand in front of
    it;
  * `Legible.spells_marksThen` and `Legible.spells_prettyThen`: both texts of such a document are
    made of its marks, in front of any text that continues them;
  * `build_marksThen`: the marks of any document make that document;
  * `Legible.read?_compact` and `Legible.read?_pretty`: both texts are read as the document, so
    that different documents have different texts.
-/
import Reckon.Json.Read
import Reckon.Proofs.Json.Scanning

namespace Reckon.Json

/-- Whether a document can be read: its numbers can be taken apart, and its texts and names have
    characters. -/
inductive Legible : Json → Prop where
  | null : Legible .null
  | bool (value : Bool) : Legible (.bool value)
  | number {text : List Char} (h : (Numeral.ofChars? text).isSome = true) : Legible (.number text)
  | string (cs : List Char) : Legible (.string (some cs))
  | array {items : List Json} (h : ∀ item ∈ items, Legible item) : Legible (.array items)
  | object {fields : List (Option (List Char) × Json)}
      (hnames : ∀ field ∈ fields, field.1.isSome = true)
      (hvalues : ∀ field ∈ fields, Legible field.2) : Legible (.object fields)

/-! ## From texts to marks -/

namespace Spells

variable {cs : List Char} {ms : List Mark}

/-- A bracket or a separator ends in front of any text. -/
theorem separator {m : Mark} (hm : m.scalar? = none) (h : Spells cs ms) :
    Spells (m.chars ++ cs) (m :: ms) := by
  cases m with
  | openArray | closeArray | openObject | closeObject | comma | colon => exact .mark trivial nofun h
  | null | bool | number | string => cases hm

/-- A text ends at its closing quotation mark. -/
theorem string (text : Option (List Char)) (htext : text.isSome = true) (h : Spells cs ms) :
    Spells (quoted text ++ cs) (.string text :: ms) :=
  .mark (m := .string text) htext nofun h

/-- A name ends at its closing quotation mark, with its colon behind it. -/
theorem named {name : Option (List Char)} (hname : name.isSome = true) (h : Spells cs ms) :
    Spells (quoted name ++ ':' :: cs) (.string name :: .colon :: ms) :=
  .string name hname (.separator (m := .colon) rfl h)

theorem newLine (h : Spells cs ms) (indent : Nat) : Spells (newLine indent ++ cs) ms := by
  have hindent : ∀ n, Spells (List.replicate n ' ' ++ cs) ms := by
    intro n
    induction n with
    | zero => exact h
    | succ n ih => exact .space rfl ih
  exact .space rfl (hindent _)

end Spells

/-- A text is made of marks, and a number that stands in front of it ends there. -/
structure Continues (cs : List Char) (ms : List Mark) : Prop where
  spells : Spells cs ms
  stops : Stops Numeral.isNumeralChar cs

theorem Continues.nil : Continues [] [] := ⟨.nil, .nil⟩

theorem Spells.behind {cs : List Char} {ms : List Mark} {m : Mark} (hm : m.scalar? = none)
    (h : Spells cs ms) : Continues (m.chars ++ cs) (m :: ms) := by
  refine ⟨h.separator hm, ?_⟩
  cases m with
  | openArray | closeArray | openObject | closeObject | comma | colon => exact .cons rfl
  | null | bool | number | string => cases hm

theorem Spells.onNewLine {cs : List Char} {ms : List Mark} (h : Spells cs ms) (indent : Nat) :
    Continues (Json.newLine indent ++ cs) ms := ⟨h.newLine indent, .cons rfl⟩

mutual

/-- **The text of a document without any space is made of its marks.** -/
theorem Legible.spells_marksThen {j : Json} (hj : Legible j) (ms : List Mark)
    (hms : Continues (ms.flatMap Mark.chars) ms) :
    Spells ((j.marksThen ms).flatMap Mark.chars) (j.marksThen ms) := by
  cases hj with
  | null => exact .mark (m := .null) trivial nofun hms.spells
  | bool value => exact .mark (m := .bool value) trivial nofun hms.spells
  | number htext => exact .mark (m := .number _) htext (fun _ _ => hms.stops) hms.spells
  | string cs => exact .string (some cs) rfl hms.spells
  | array hitems =>
    have hclose := hms.spells.behind (m := .closeArray) rfl
    exact .separator (m := .openArray) rfl (spells_itemMarksThen hitems (.closeArray :: ms) hclose)
  | object hnames hvalues =>
    have hclose := hms.spells.behind (m := .closeObject) rfl
    exact .separator (m := .openObject) rfl
      (spells_fieldMarksThen hnames hvalues (.closeObject :: ms) hclose)

theorem spells_itemMarksThen {items : List Json} (hitems : ∀ item ∈ items, Legible item)
    (ms : List Mark) (hms : Continues (ms.flatMap Mark.chars) ms) :
    Spells ((itemMarksThen ms items).flatMap Mark.chars) (itemMarksThen ms items) := by
  match items with
  | [] => exact hms.spells
  | [item] =>
    rw [List.forall_mem_singleton] at hitems
    exact hitems.spells_marksThen ms hms
  | item :: next :: more =>
    obtain ⟨hitem, hnext⟩ := List.forall_mem_cons.1 hitems
    have hmore := spells_itemMarksThen hnext ms hms
    exact hitem.spells_marksThen (.comma :: _) (hmore.behind (m := .comma) rfl)

theorem spells_fieldMarksThen {fields : List (Option (List Char) × Json)}
    (hnames : ∀ field ∈ fields, field.1.isSome = true)
    (hvalues : ∀ field ∈ fields, Legible field.2)
    (ms : List Mark) (hms : Continues (ms.flatMap Mark.chars) ms) :
    Spells ((fieldMarksThen ms fields).flatMap Mark.chars) (fieldMarksThen ms fields) := by
  match fields with
  | [] => exact hms.spells
  | [(name, value)] =>
    rw [List.forall_mem_singleton] at hnames hvalues
    exact .named hnames (hvalues.spells_marksThen ms hms)
  | (name, value) :: next :: more =>
    obtain ⟨hname, hnames⟩ := List.forall_mem_cons.1 hnames
    obtain ⟨hvalue, hvalues⟩ := List.forall_mem_cons.1 hvalues
    have hmore := spells_fieldMarksThen hnames hvalues ms hms
    exact .named hname (hvalue.spells_marksThen (.comma :: _) (hmore.behind (m := .comma) rfl))

end

mutual

/-- **The text of a document with one line for each item is made of its marks.** -/
theorem Legible.spells_prettyThen {j : Json} (hj : Legible j) (indent : Nat) {cs : List Char}
    {ms : List Mark} (h : Continues cs ms) :
    Spells (j.prettyThen indent cs) (j.marksThen ms) := by
  cases hj with
  | null => exact .mark (m := .null) trivial nofun h.spells
  | bool value => exact .mark (m := .bool value) trivial nofun h.spells
  | number htext => exact .mark (m := .number _) htext (fun _ _ => h.stops) h.spells
  | string cs => exact .string (some cs) rfl h.spells
  | @array items hitems =>
    have hclose := h.spells.separator (m := .closeArray) rfl
    cases items with
    | nil => exact .separator (m := .openArray) rfl hclose
    | cons item more =>
      have hitems := spells_prettyItemsThen hitems (indent + 1) (hclose.onNewLine indent)
      exact .separator (m := .openArray) rfl hitems
  | @object fields hnames hvalues =>
    have hclose := h.spells.separator (m := .closeObject) rfl
    cases fields with
    | nil => exact .separator (m := .openObject) rfl hclose
    | cons field more =>
      have hfields := spells_prettyFieldsThen hnames hvalues (indent + 1) (hclose.onNewLine indent)
      exact .separator (m := .openObject) rfl hfields

theorem spells_prettyItemsThen {items : List Json} (hitems : ∀ item ∈ items, Legible item)
    (indent : Nat) {cs : List Char} {ms : List Mark} (h : Continues cs ms) :
    Spells (prettyItemsThen indent cs items) (itemMarksThen ms items) := by
  match items with
  | [] => exact h.spells
  | [item] =>
    rw [List.forall_mem_singleton] at hitems
    exact (hitems.spells_prettyThen indent h).newLine indent
  | item :: next :: more =>
    obtain ⟨hitem, hnext⟩ := List.forall_mem_cons.1 hitems
    have hmore := spells_prettyItemsThen hnext indent h
    exact (hitem.spells_prettyThen indent (hmore.behind (m := .comma) rfl)).newLine indent

theorem spells_prettyFieldsThen {fields : List (Option (List Char) × Json)}
    (hnames : ∀ field ∈ fields, field.1.isSome = true)
    (hvalues : ∀ field ∈ fields, Legible field.2)
    (indent : Nat) {cs : List Char} {ms : List Mark} (h : Continues cs ms) :
    Spells (prettyFieldsThen indent cs fields) (fieldMarksThen ms fields) := by
  match fields with
  | [] => exact h.spells
  | [(name, value)] =>
    rw [List.forall_mem_singleton] at hnames hvalues
    have hvalue := hvalues.spells_prettyThen indent h
    rw [prettyFieldsThen, List.append_assoc]
    exact .newLine (.named hnames (.space (c := ' ') rfl hvalue)) indent
  | (name, value) :: next :: more =>
    obtain ⟨hname, hnames⟩ := List.forall_mem_cons.1 hnames
    obtain ⟨hvalue, hvalues⟩ := List.forall_mem_cons.1 hvalues
    have hmore := spells_prettyFieldsThen hnames hvalues indent h
    have hvalue := hvalue.spells_prettyThen indent (hmore.behind (m := .comma) rfl)
    rw [prettyFieldsThen, List.append_assoc]
    exact .newLine (.named hname (.space (c := ' ') rfl hvalue)) indent

end

/-! ## From marks to documents -/

/-- No document begins with a bracket that closes one. -/
theorem build_firstItem (stack : List Frame) (ms : List Mark) (item : Json) (more : List Json) :
    build .firstItem stack (itemMarksThen ms (item :: more)) =
      build .value (.array [] :: stack) (itemMarksThen ms (item :: more)) := by
  cases more <;> cases item <;> rfl

theorem build_firstName (stack : List Frame) (ms : List Mark)
    (field : Option (List Char) × Json) (more : List (Option (List Char) × Json)) :
    build .firstName stack (fieldMarksThen ms (field :: more)) =
      build (.name []) stack (fieldMarksThen ms (field :: more)) := by
  cases more <;> rfl

mutual

/-- **The marks of a document make it**, whatever is still open. -/
theorem build_marksThen (j : Json) (stack : List Frame) (ms : List Mark) :
    build .value stack (j.marksThen ms) = build (.complete j) stack ms := by
  match j with
  | .null | .bool _ | .number _ | .string _ => rfl
  | .array [] | .object [] => rfl
  | .array (item :: more) =>
    exact (build_firstItem stack _ item more).trans
      (build_itemMarksThen (item :: more) (List.cons_ne_nil _ _) [] stack ms)
  | .object (field :: more) =>
    exact (build_firstName stack _ field more).trans
      (build_fieldMarksThen (field :: more) (List.cons_ne_nil _ _) [] stack ms)

/-- Items come behind those that are there. -/
theorem build_itemMarksThen (items : List Json) (hne : items ≠ []) (before : List Json)
    (stack : List Frame) (ms : List Mark) :
    build .value (.array before :: stack) (itemMarksThen (.closeArray :: ms) items) =
      build (.complete (.array (before.reverse ++ items))) stack ms := by
  match items with
  | [item] =>
    have hitem := build_marksThen item (.array before :: stack) (.closeArray :: ms)
    rw [← List.reverse_cons]
    exact hitem
  | item :: next :: more =>
    have hitem := build_marksThen item (.array before :: stack)
      (.comma :: itemMarksThen (.closeArray :: ms) (next :: more))
    have hmore := build_itemMarksThen (next :: more) (List.cons_ne_nil _ _) (item :: before) stack
      ms
    rw [List.reverse_cons, List.append_assoc] at hmore
    exact hitem.trans hmore

/-- Fields come behind those that are there. -/
theorem build_fieldMarksThen (fields : List (Option (List Char) × Json)) (hne : fields ≠ [])
    (before : List (Option (List Char) × Json)) (stack : List Frame) (ms : List Mark) :
    build (.name before) stack (fieldMarksThen (.closeObject :: ms) fields) =
      build (.complete (.object (before.reverse ++ fields))) stack ms := by
  match fields with
  | [(name, value)] =>
    have hvalue := build_marksThen value (.object before name :: stack) (.closeObject :: ms)
    rw [← List.reverse_cons]
    exact hvalue
  | (name, value) :: next :: more =>
    have hvalue := build_marksThen value (.object before name :: stack)
      (.comma :: fieldMarksThen (.closeObject :: ms) (next :: more))
    have hmore := build_fieldMarksThen (next :: more) (List.cons_ne_nil _ _)
      ((name, value) :: before) stack ms
    rw [List.reverse_cons, List.append_assoc] at hmore
    exact hvalue.trans hmore

end

/-- **A document is read back from its text without any space.** -/
theorem Legible.read?_compact {j : Json} (hj : Legible j) : read? j.compact = some j := by
  have hscan := (hj.spells_marksThen [] .nil).scan_eq
  rw [read?, compact, String.toList_ofList, marks, hscan]
  exact build_marksThen j [] []

/-- **A document is read back from its text with one line for each item.** -/
theorem Legible.read?_pretty {j : Json} (hj : Legible j) : read? j.pretty = some j := by
  have hscan := (hj.spells_prettyThen 0 .nil).scan_eq
  rw [read?, pretty, String.toList_ofList, hscan]
  exact build_marksThen j [] []

section Texts

variable {j j' : Json}

/-- Different documents have different texts without space. -/
theorem Legible.compact_inj (hj : Legible j) (hj' : Legible j') (h : j.compact = j'.compact) :
    j = j' := by
  have hread := hj.read?_compact
  rw [h, hj'.read?_compact] at hread
  exact (Option.some.inj hread).symm

/-- Different documents have different texts with one line for each item. -/
theorem Legible.pretty_inj (hj : Legible j) (hj' : Legible j') (h : j.pretty = j'.pretty) :
    j = j' := by
  have hread := hj.read?_pretty
  rw [h, hj'.read?_pretty] at hread
  exact (Option.some.inj hread).symm

end Texts

end Reckon.Json
