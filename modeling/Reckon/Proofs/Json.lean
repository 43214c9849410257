/-
  Expressions and failures are read back from the documents that they are written as.

  * `Expr.Returns e`: the literals of `e` are read back, and no more brackets stand inside each
    other in its document than are read;
  * `Expr.ofJson?_toJson`: such an expression is the one that its document writes, node by node;
  * `Failure.Returns f`: the places and limits of `f` fit into words, and its operand is read back;
  * `Failure.ofJson?_toJson`: such a failure is the one that its document writes;
  * `readJson?_toJson`: both are read back from either of their texts, so that different ones have
    different texts.
-/
import Reckon.Expr.Json
import Reckon.Failure.Json
import Reckon.Proofs.Json.Record
import Reckon.Proofs.Render

namespace Reckon

open Json

/-! ## Expressions -/

namespace Expr

/-- There are two brackets for each level of the tree, but one for the literals. -/
theorem brackets_toJson (e : Expr) : e.toJson.brackets + 1 = 2 * e.depth := by
  induction e with
  | number value => simp [toJson, depth]
  | binary op left right ihl ihr =>
    have hmax : (binary op left right).toJson.brackets =
        2 + max left.toJson.brackets right.toJson.brackets := by
      simp [toJson]
      omega
    rw [hmax, depth]
    omega
  | signed sign operand ih | call f operand ih =>
    simp [toJson, depth]
    omega

theorem depth_pos (e : Expr) : 0 < e.depth := by cases e <;> simp [depth]

theorem legible_toJson {e : Expr} (h : ∀ x ∈ e.literals, Json.Returns x) : Legible e.toJson := by
  induction e with
  | number value => exact .ofVariant _ (h value (List.mem_singleton_self value)).legible_ofFloat
  | binary op left right ihl ihr =>
    have hleft := ihl fun x hx => h x (List.mem_append_left _ hx)
    have hright := ihr fun x hx => h x (List.mem_append_right _ hx)
    exact .ofVariant _ (.ofRecord (by simp [legible_ofText, hleft, hright]))
  | signed sign operand ih | call f operand ih =>
    exact .ofVariant _ (.ofRecord (by simp [legible_ofText, ih h]))

theorem literal?_toJson {x : Float} (h : Json.Returns x) :
    literal? (number x).toJson = some (number x) := by
  have hvalue : (ofFloat x).double? = some x := h
  simp [literal?, toJson, hvalue]

/-- Two brackets are for the node itself, and the others for its operands. -/
theorem exists_nesting {d nesting : Nat} (hd : 0 < d) (h : 2 * (1 + d) ≤ nesting + 1) :
    ∃ n, nesting = n + 2 ∧ 2 * d ≤ n + 1 :=
  ⟨nesting - 2, by omega, by omega⟩

/-- **An expression is the one that its document writes**, if its literals are read back and there
    are enough brackets for its tree. -/
theorem ofJson?_toJson {e : Expr} (h : ∀ x ∈ e.literals, Json.Returns x) (nesting : Nat)
    (hnesting : 2 * e.depth ≤ nesting + 1) : ofJson? nesting e.toJson = some e := by
  induction e generalizing nesting with
  | number value =>
    have hliteral := literal?_toJson (h value (List.mem_singleton_self value))
    match nesting with
    | 0 => simp [depth] at hnesting
    | 1 => exact hliteral
    | nesting + 2 =>
      rw [← hliteral, toJson, ofJson?, variant?_ofVariant]
      rfl
  | binary op left right ihl ihr =>
    obtain ⟨nesting, rfl, hn⟩ := exists_nesting (lt_max_of_lt_left left.depth_pos) hnesting
    have hleft := ihl (fun x hx => h x (List.mem_append_left _ hx)) nesting (by omega)
    have hright := ihr (fun x hx => h x (List.mem_append_right _ hx)) nesting (by omega)
    simp [toJson, ofJson?, hleft, hright]
  | signed sign operand ih | call f operand ih =>
    obtain ⟨nesting, rfl, hn⟩ := exists_nesting operand.depth_pos hnesting
    simp [toJson, ofJson?, ih h nesting hn]

/-- Different expressions are different documents, however deep they are. -/
theorem toJson_inj {e e' : Expr} (h : ∀ x ∈ e.literals, Json.Returns x)
    (h' : ∀ x ∈ e'.literals, Json.Returns x) (hjson : e.toJson = e'.toJson) : e = e' := by
  have hread := ofJson?_toJson h (2 * (e.depth + e'.depth)) (by omega)
  rw [hjson, ofJson?_toJson h' _ (by omega)] at hread
  exact (Option.some.inj hread).symm

/-- Whether an expression is read back: its literals are, so that they are finite, and no more
    brackets stand inside each other in its document than are read. -/
structure Returns (e : Expr) : Prop where
  literals : ∀ x ∈ e.literals, Json.Returns x
  nesting : e.toJson.brackets ≤ Json.nesting

end Expr

/-! ## Failures -/

/-- The counts that a problem tells. -/
def SyntaxProblem.counts : SyntaxProblem → List Nat
  | nestingTooDeep limit => [limit]
  | _ => []

/-- The counts of an error: its place, and what its problem tells. -/
def SyntaxError.counts (e : SyntaxError) : List Nat :=
  e.span.start :: e.span.stop :: e.problem.counts

/-- The doubles that a fault tells. -/
def ArithmeticFault.operands : ArithmeticFault → List Float
  | divisionByZero => []
  | negativeRoot value | nonPositiveLog value => [value]

namespace Span

theorem legible_toJson (s : Span) : Legible s.toJson := .ofRecord (by simp [legible_ofNat])

theorem ofJson?_toJson {s : Span} (hstart : s.start < Numeral.wordBound)
    (hstop : s.stop < Numeral.wordBound) : ofJson? s.toJson = some s := by
  simp [ofJson?, toJson, natural?_ofNat hstart, natural?_ofNat hstop]

end Span

namespace SyntaxProblem

variable {p : SyntaxProblem}

theorem fieldNames?_tag (p : SyntaxProblem) : fieldNames? p.tag = some (p.fields.map Prod.fst) := by
  cases p <;> rfl

theorem legible_fields (p : SyntaxProblem) : ∀ field ∈ p.fields, Legible field.2 := by
  cases p <;> simp [fields, legible_ofText, legible_ofNat]

/-- What a problem tells has different names, and none of them is that of its place. -/
theorem nodup_names (p : SyntaxProblem) : (p.fields.map Prod.fst ++ ["span"]).Nodup := by
  cases p <;> simp [fields]

theorem ofContents?_fields (h : ∀ n ∈ p.counts, n < Numeral.wordBound) :
    ofContents? p.tag (p.fields.map Prod.snd) = some p := by
  cases p with
  | nestingTooDeep limit =>
    simp [tag, fields, ofContents?, natural?_ofNat (h limit (List.mem_singleton_self limit))]
  | _ => simp [tag, fields, ofContents?]

end SyntaxProblem

namespace SyntaxError

theorem ofVariant?_fields {e : SyntaxError} (h : ∀ n ∈ e.counts, n < Numeral.wordBound) :
    ofVariant? e.problem.tag (.ofRecord (e.problem.fields ++ [("span", e.span.toJson)])) =
      some e := by
  obtain ⟨hstart, hplace⟩ := List.forall_mem_cons.1 h
  obtain ⟨hstop, hproblem⟩ := List.forall_mem_cons.1 hplace
  have hcontents := SyntaxProblem.ofContents?_fields hproblem
  have hspan := Span.ofJson?_toJson hstart hstop
  simp [ofVariant?, e.problem.fieldNames?_tag, e.problem.nodup_names, hcontents, hspan]

/-- No problem has the tag of a fault. -/
theorem ofVariant?_fault (f : ArithmeticFault) (content : Json) :
    ofVariant? f.tag content = none := by
  cases f <;> rfl

end SyntaxError

theorem ArithmeticFault.ofVariant?_operand {f : ArithmeticFault} {x : Float}
    (hf : f.operands = [x]) (hx : Json.Returns x) :
    ofVariant? f.tag (.ofRecord [("value", .ofFloat x)]) = some f := by
  have hvalue : (ofFloat x).double? = some x := hx
  cases f <;> cases hf <;> simp [ofVariant?, tag, hvalue]

namespace Failure

/-- The counts of a failure: its place and its limit. -/
def counts : Failure → List Nat
  | unreadable e => e.counts
  | faulty _ => []

/-- The operand of a failure, if it tells one. -/
def operands : Failure → List Float
  | unreadable _ => []
  | faulty f => f.operands

/-- Whether a failure is read back: its counts fit into words, and its operand is read back, so that
    it is finite. -/
structure Returns (f : Failure) : Prop where
  counts : ∀ n ∈ f.counts, n < Numeral.wordBound
  operands : ∀ x ∈ f.operands, Json.Returns x

theorem Returns.legible_toJson {f : Failure} (h : f.Returns) : Legible f.toJson := by
  cases f with
  | unreadable e =>
    refine .ofVariant _ (.ofRecord (List.forall_mem_append.2 ⟨e.problem.legible_fields, ?_⟩))
    rw [List.forall_mem_singleton]
    exact e.span.legible_toJson
  | faulty f =>
    cases f with
    | divisionByZero => exact legible_ofText _
    | negativeRoot x | nonPositiveLog x =>
      refine .ofVariant _ (.ofRecord ?_)
      rw [List.forall_mem_singleton]
      exact (h.operands x (List.mem_singleton_self x)).legible_ofFloat

/-- A variant with a record is a syntax error or a fault by its tag. -/
theorem ofJson?_ofVariant (tag : String) (fields : List (String × Json)) :
    ofJson? (.ofVariant tag (.ofRecord fields)) =
      match SyntaxError.ofVariant? tag (.ofRecord fields) with
      | some e => some (unreadable e)
      | none => (ArithmeticFault.ofVariant? tag (.ofRecord fields)).map faulty := by
  rw [ofJson?, tag?_ofVariant_ofRecord, variant?_ofVariant, Option.bind_eq_bind, Option.bind_some]
  dsimp only
  cases SyntaxError.ofVariant? tag (.ofRecord fields) with
  | some e => rfl
  | none => cases ArithmeticFault.ofVariant? tag (.ofRecord fields) <;> rfl

/-- **A failure is the one that its document writes**, whatever its cause is. -/
theorem ofJson?_toJson {f : Failure} (h : f.Returns) : ofJson? f.toJson = some f := by
  cases f with
  | unreadable e => rw [toJson, ofJson?_ofVariant, SyntaxError.ofVariant?_fields h.counts]
  | faulty f =>
    cases f with
    | divisionByZero => rfl
    | negativeRoot x | nonPositiveLog x =>
      have hx := h.operands x (List.mem_singleton_self x)
      rw [toJson, ArithmeticFault.toJson, ofJson?_ofVariant, SyntaxError.ofVariant?_fault,
        ArithmeticFault.ofVariant?_operand rfl hx]
      rfl

theorem toJson_inj {f f' : Failure} (h : f.Returns) (h' : f'.Returns)
    (hjson : f.toJson = f'.toJson) : f = f' := by
  have hread := ofJson?_toJson h
  rw [hjson, ofJson?_toJson h'] at hread
  exact (Option.some.inj hread).symm

end Failure

/-! ## Texts -/

theorem Expr.readJson?_texts {e : Expr} (h : e.Returns) :
    readJson? e.toJson.compact = some e ∧ readJson? e.toJson.pretty = some e := by
  have hlegible := legible_toJson h.literals
  have hread : ofJson? Json.nesting e.toJson = some e := by
    refine ofJson?_toJson h.literals _ ?_
    rw [← e.brackets_toJson]
    exact Nat.succ_le_succ h.nesting
  rw [readJson?, readJson?, hlegible.read?_compact, hlegible.read?_pretty]
  exact ⟨hread, hread⟩

theorem Failure.readJson?_texts {f : Failure} (h : f.Returns) :
    readJson? f.toJson.compact = some f ∧ readJson? f.toJson.pretty = some f := by
  have hread := ofJson?_toJson h
  rw [readJson?, readJson?, h.legible_toJson.read?_compact, h.legible_toJson.read?_pretty]
  exact ⟨hread, hread⟩

/-- **Reading a document undoes writing it.** An expression is read back from both of its texts as
    the same tree, with the same operators, functions and literals in the same places, and a failure
    as the same failure, with the same texts, place, limit and operand. Different expressions, and
    different failures, have different texts of either kind. -/
theorem readJson?_toJson :
    (∀ e : Expr, e.Returns → Expr.readJson? e.toJson.compact = some e ∧
      Expr.readJson? e.toJson.pretty = some e) ∧
    (∀ f : Failure, f.Returns → Failure.readJson? f.toJson.compact = some f ∧
      Failure.readJson? f.toJson.pretty = some f) ∧
    (∀ e e' : Expr, (∀ x ∈ e.literals, Json.Returns x) → (∀ x ∈ e'.literals, Json.Returns x) →
      e ≠ e' → e.toJson.compact ≠ e'.toJson.compact ∧ e.toJson.pretty ≠ e'.toJson.pretty) ∧
    (∀ f f' : Failure, f.Returns → f'.Returns → f ≠ f' →
      f.toJson.compact ≠ f'.toJson.compact ∧ f.toJson.pretty ≠ f'.toJson.pretty) := by
  refine ⟨fun e => Expr.readJson?_texts, fun f => Failure.readJson?_texts,
    fun e e' he he' hne => ?_, fun f f' hf hf' hne => ?_⟩
  · have hjson := mt (Expr.toJson_inj he he') hne
    have hlegible := Expr.legible_toJson he
    have hlegible' := Expr.legible_toJson he'
    exact ⟨mt (hlegible.compact_inj hlegible') hjson, mt (hlegible.pretty_inj hlegible') hjson⟩
  · have hjson := mt (Failure.toJson_inj hf hf') hne
    exact ⟨mt (hf.legible_toJson.compact_inj hf'.legible_toJson) hjson,
      mt (hf.legible_toJson.pretty_inj hf'.legible_toJson) hjson⟩

/-- Two trees that mirror each other, and two failures, one of them with a text that has a quotation
    mark, a backslash, control characters and characters outside of ASCII. -/
theorem readJson?_toJson_mirrored :
    let e := Expr.binary .power (.number 0.1) (.signed .minus (.number 2.5))
    let e' := Expr.binary .power (.signed .minus (.number 2.5)) (.number 0.1)
    let f := Failure.unreadable ⟨.unknownCharacter "\"\\\n\x01é√", ⟨3, 4⟩⟩
    let f' := Failure.faulty (.negativeRoot (-4))
    (e.Returns ∧ e'.Returns ∧ f.Returns ∧ f'.Returns) ∧
      Expr.readJson? e.toJson.compact = some e ∧ Failure.readJson? f.toJson.pretty = some f ∧
      e.toJson.compact ≠ e'.toJson.compact ∧ f.toJson.pretty ≠ f'.toJson.pretty := by
  intro e e' f f'
  have he : e.Returns := ⟨by decide +kernel, by decide +kernel⟩
  have he' : e'.Returns := ⟨by decide +kernel, by decide +kernel⟩
  have hf : f.Returns := ⟨by decide +kernel, by decide +kernel⟩
  have hf' : f'.Returns := ⟨by decide +kernel, by decide +kernel⟩
  obtain ⟨hexpr, hfailure, hexprs, hfailures⟩ := readJson?_toJson
  exact ⟨⟨he, he', hf, hf'⟩, (hexpr e he).1, (hfailure f hf).2,
    (hexprs e e' he.literals he'.literals (by decide +kernel)).1,
    (hfailures f f' hf hf' nofun).2⟩

end Reckon
