/-
  Records and variants as documents are taken apart into what they were made of.

  * `natural?_ofNat`: a count within a word is read back, and the digits of every count are a
    number;
  * `Json.Returns x`: the double `x` is read back from its number;
  * `fields?_ofRecord` and `variant?_ofVariant`: a record gives its contents, a variant its tag and
    its content;
  * `Legible.ofRecord` and `Legible.ofVariant`: they can be read if their contents can;
  * `Json.brackets` is how many brackets stand inside each other in a document.
-/
import Reckon.Json.Record
import Reckon.Proofs.Json.Reading
import Reckon.Proofs.Number.Layout

namespace Reckon

/-! ## Counts -/

namespace Numeral

open Decimal

/-- Digits without zeros in front are a number that has no other parts. -/
theorem ofChars?_of_isDigits {w : List Char} (hw : IsDigits w) (hne : w ≠ [])
    (hzero : ∀ c v, w ≠ '0' :: c :: v) : ofChars? w = some ⟨false, w, [], none⟩ := by
  have htake := Stops.nil.takeWhile_append hw
  have hdrop := Stops.nil.dropWhile_append hw
  rw [List.append_nil] at htake hdrop
  unfold ofChars?
  split
  next negative ds heq =>
  split at heq <;> cases heq
  · exact absurd (hw '-' List.mem_cons_self) (by decide)
  · rw [htake, hdrop]
    dsimp only
    split
    · exact absurd rfl hne
    · exact absurd rfl (hzero _ _)
    · rfl

theorem ofChars?_toDigits (n : Nat) :
    ofChars? (Nat.toDigits 10 n) = some ⟨false, Nat.toDigits 10 n, [], none⟩ := by
  refine ofChars?_of_isDigits (isDigits_toDigits n) Nat.toDigits_ne_nil fun c v h => ?_
  cases n with
  | zero => cases h
  | succ n => exact head_toDigits n.succ_pos '0' (by rw [h]; rfl) rfl

end Numeral

namespace Json

theorem legible_ofNat (n : Nat) : Legible (ofNat n) :=
  .number (by rw [Numeral.ofChars?_toDigits]; rfl)

theorem natural?_ofNat {n : Nat} (h : n < Numeral.wordBound) : (ofNat n).natural? = some n := by
  rw [ofNat, natural?, Numeral.ofChars?_toDigits, Option.bind_some, Numeral.natural?,
    Decimal.ofDigits_toDigits, if_pos h]

/-! ## Texts and doubles -/

theorem legible_ofText (s : String) : Legible (ofText s) := .string s.toList

@[simp] theorem text?_ofText (s : String) : (ofText s).text? = some s :=
  congrArg some String.ofList_toList

@[simp] theorem tag?_ofText (nesting : Nat) (s : String) : (ofText s).tag? nesting = some s :=
  congrArg some String.ofList_toList

/-- Whether a double is read back from its number. What is not finite has no number, and what is
    finite may be rounded more than once on its way back. -/
def Returns (x : Float) : Prop := (ofFloat x).double? = some x

instance (x : Float) : Decidable (Returns x) :=
  inferInstanceAs (Decidable ((ofFloat x).double? = some x))

example : Returns 0.1 ∧ ¬ Returns 1e-30 ∧ ¬ Returns (1 / 0) := by decide +kernel

theorem Returns.legible_ofFloat {x : Float} (h : Returns x) : Legible (ofFloat x) := by
  unfold Returns at h
  unfold ofFloat at h ⊢
  split at h
  · exact .number (Option.isSome_of_isSome_bind (Option.isSome_of_eq_some h))
  · cases h

/-! ## Records and variants -/

theorem Legible.ofRecord {fields : List (String × Json)}
    (h : ∀ field ∈ fields, Legible field.2) : Legible (ofRecord fields) := by
  refine .object ?_ ?_ <;> rw [List.forall_mem_map]
  · exact fun _ _ => rfl
  · exact h

theorem Legible.ofVariant (tag : String) {content : Json} (h : Legible content) :
    Legible (ofVariant tag content) :=
  .ofRecord (by rw [List.forall_mem_singleton]; exact h)

@[simp] theorem variant?_ofVariant (tag : String) (content : Json) :
    (ofVariant tag content).variant? = some (tag, content) :=
  congrArg (fun tag => some (tag, content)) String.ofList_toList

/-- What holds a record is no tag without content. -/
@[simp] theorem tag?_ofVariant_ofRecord (nesting : Nat) (tag : String)
    (fields : List (String × Json)) :
    (ofVariant tag (ofRecord fields)).tag? nesting = none := rfl

section Fields

variable {fields : List (String × Json)} {field : String × Json}

/-- A name stands for one field, if all fields have different names. -/
theorem filter_name_eq (hnodup : (fields.map Prod.fst).Nodup) (h : field ∈ fields) :
    fields.filter (·.1 == field.1) = [field] := by
  induction fields with
  | nil => cases h
  | cons first more ih =>
    rw [List.map_cons, List.nodup_cons] at hnodup
    obtain ⟨hfirst, hmore⟩ := hnodup
    rcases List.mem_cons.1 h with rfl | h
    · rw [List.filter_cons_of_pos (by simp), List.filter_eq_nil_iff.2]
      intro other hother heq
      exact hfirst (eq_of_beq heq ▸ List.mem_map_of_mem hother)
    · rw [List.filter_cons_of_neg, ih hmore h]
      intro heq
      exact hfirst (eq_of_beq heq ▸ List.mem_map_of_mem h)

theorem only?_of_mem (hnodup : (fields.map Prod.fst).Nodup) (h : field ∈ fields) :
    only? (fields.map fun (name, content) => (some name.toList, content)) field.1 =
      some field.2 := by
  have hname (other : String × Json) :
      (some other.1.toList == some field.1.toList) = (other.1 == field.1) := by
    rw [Bool.eq_iff_iff, beq_iff_eq, beq_iff_eq, Option.some.injEq, String.toList_inj]
  rw [only?, List.filter_map]
  simp only [Function.comp_def, hname, filter_name_eq hnodup h, List.map_cons, List.map_nil]

/-- **A record gives the contents of its fields**, if all fields have different names. -/
@[simp] theorem fields?_ofRecord {names : List String} (hnames : fields.map Prod.fst = names)
    (hnodup : names.Nodup) : (ofRecord fields).fields? names = some (fields.map Prod.snd) := by
  subst hnames
  have hnamed : (fields.map fun (name, content) => (some name.toList, content)).all
      (·.1.isSome) = true := by simp
  rw [ofRecord, fields?, if_pos hnamed]
  -- The names are looked up one by one, always among all fields.
  have hpart : ∀ part ⊆ fields, (part.map Prod.fst).mapM
      (only? (fields.map fun (name, content) => (some name.toList, content))) =
        some (part.map Prod.snd) := by
    intro part hpart
    induction part with
    | nil => rfl
    | cons field more ih =>
      obtain ⟨hfield, hmore⟩ := List.cons_subset.1 hpart
      rw [List.map_cons, List.mapM_cons, only?_of_mem hnodup hfield, ih hmore]
      rfl
  exact hpart fields (List.Subset.refl _)

end Fields

/-! ## Brackets -/

mutual

/-- How many brackets stand inside each other in a document. -/
def brackets : Json → Nat
  | array items => 1 + itemBrackets items
  | object fields => 1 + fieldBrackets fields
  | null | bool _ | number _ | string _ => 0

/-- How many brackets stand inside each other in one of these items. -/
def itemBrackets : List Json → Nat
  | [] => 0
  | item :: more => max item.brackets (itemBrackets more)

/-- How many brackets stand inside each other in one of these fields. -/
def fieldBrackets : List (Option (List Char) × Json) → Nat
  | [] => 0
  | (_, value) :: more => max value.brackets (fieldBrackets more)

end

@[simp] theorem brackets_ofText (s : String) : (ofText s).brackets = 0 := by
  rw [ofText, brackets]

@[simp] theorem brackets_ofFloat (x : Float) : (ofFloat x).brackets = 0 := by
  unfold ofFloat
  split <;> rw [brackets]

@[simp] theorem brackets_ofRecord (fields : List (String × Json)) :
    (ofRecord fields).brackets = 1 + (fields.map fun field => field.2.brackets).foldr max 0 := by
  rw [ofRecord, brackets]
  congr 1
  induction fields with
  | nil => rw [List.map_nil, fieldBrackets]; rfl
  | cons field more ih => rw [List.map_cons, fieldBrackets, ih]; rfl

@[simp] theorem brackets_ofVariant (tag : String) (content : Json) :
    (ofVariant tag content).brackets = 1 + content.brackets := by
  simp [ofVariant]

end Json

end Reckon
