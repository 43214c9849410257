/-
  Expressions in writing read back as themselves.

  * `Expr.literals` are the literals of an expression;
  * `Writes p w e`: the text `w` is a phrase of the kind `p` with the expression `e`,
    wherever it stands; there is one lemma for each way in which `Expr.render` puts
    texts together;
  * `writes_render`: an expression with finite literals without sign is written as a
    factor;
  * `unsigned_of_parse`: the literals of an expression that was read are numbers and
    have no sign;
  * `parse_render`: writing and then reading changes nothing.
-/
import Reckon.Calculator
import Reckon.Proofs.Cost
import Reckon.Proofs.Factorisation
import Reckon.Proofs.Number

namespace Reckon

open Scanner

/-- The literals of an expression, from left to right. -/
def Expr.literals : Expr → List Float
  | number value => [value]
  | binary _ left right => left.literals ++ right.literals
  | signed _ operand => operand.literals
  | call _ argument => argument.literals

/-! ## Writing -/

/-- A text is a phrase with this expression wherever it stands, unless a number goes
    on behind it. -/
def Writes (p : Phrase) (w : List Char) (e : Expr) : Prop :=
  ∀ n cs, Stops Lexeme.isNumberChar cs → ∃ t ts n',
    Scans ⟨n, w ++ cs⟩ (t :: ts) ⟨n', cs⟩ ∧ Derives p (t :: ts) e

namespace Writes

variable {w x : List Char} {e e' : Expr}

theorem number {v : Float} (hw : IsLexeme .number w) (hv : Number.read w = v) :
    Writes .factor w (.number v) := by
  intro n cs hcs
  subst hv
  exact ⟨token n .number w, [], _, Scans.lexeme hw hcs n, Derives.number rfl⟩

theorem signed (sign : Sign) (hw : Writes .factor w e) :
    Writes .factor (sign.symbol.toList ++ w) (.signed sign e) := by
  obtain ⟨s, hs, ht⟩ : ∃ s, sign.symbol.toList = [s] ∧
      Sign.ofKind? (Lexeme.symbol s) = some sign := by
    cases sign <;> exact ⟨_, rfl, rfl⟩
  intro n cs hcs
  obtain ⟨t, ts, n', hscan, hd⟩ := hw (n + 1) cs hcs
  have hsymbol := Scans.symbol (Sign.kind_ne_invalid ht) n (w ++ cs)
  rw [hs, List.singleton_append, List.cons_append]
  exact ⟨token n (Lexeme.symbol s) [s], t :: ts, n', hsymbol.append hscan,
    Derives.signed ht hd⟩

theorem call (f : Function) (hw : Writes .factor w e) :
    Writes .factor (f.name.toList ++ '(' :: (w ++ [')'])) (.call f e) := by
  intro n cs hcs
  obtain ⟨t, ts, n', hs, hd⟩ := hw (n + f.name.toList.length + 1) (')' :: cs) (.cons rfl)
  exact ⟨_, _, _, hs.call f, Derives.call rfl rfl rfl (hd.loosen (by decide))⟩

/-- A blank does not change what follows it. -/
theorem scans_blank {n : Nat} {cs : List Char} {t : Token} {ts : List Token} {s : Scanner}
    (h : Scans ⟨n + 1, cs⟩ (t :: ts) s) : Scans ⟨n, ' ' :: cs⟩ (t :: ts) s :=
  Scans.blanks Text.isBlank_space h

/-- An operator with a blank on either side. -/
theorem binary (op : BinaryOp) (hw : Writes .factor w e) (hx : Writes .factor x e') :
    Writes op.phrase (w ++ ' ' :: (op.symbol.toList ++ ' ' :: x)) (.binary op e e') := by
  obtain ⟨s, hs, ht⟩ : ∃ s, op.symbol.toList = [s] ∧
      BinaryOp.ofKind? (Lexeme.symbol s) = some op := by
    cases op <;> exact ⟨_, rfl, rfl⟩
  intro n cs hcs
  obtain ⟨t, ts, n₁, hscan, hd⟩ := hw n (' ' :: s :: ' ' :: (x ++ cs)) (.cons rfl)
  have hsymbol := scans_blank (Scans.symbol (BinaryOp.kind_ne_invalid ht) (n₁ + 1) (' ' :: (x ++ cs)))
  obtain ⟨u, us, n₂, hscan', hd'⟩ := hx (n₁ + 1 + 1 + 1) cs hcs
  have htext : w ++ ' ' :: (op.symbol.toList ++ ' ' :: x) ++ cs =
      w ++ ' ' :: s :: ' ' :: (x ++ cs) := by simp [hs]
  have hl : Derives op.left (t :: ts) e :=
    hd.loosen (Nat.le_trans op.precedence_left_le op.precedence_lt_factor)
  have hr : Derives op.right (u :: us) e' :=
    hd'.loosen (Nat.le_trans op.precedence_right_le op.precedence_lt_factor)
  rw [htext]
  exact ⟨_, _, n₂, hscan.append (hsymbol.append (scans_blank hscan')), Derives.binary hl ht hr⟩

theorem group {p : Phrase} (hw : Writes p w e) : Writes .factor ('(' :: (w ++ [')'])) e := by
  intro n cs hcs
  obtain ⟨t, ts, n', hs, hd⟩ := hw (n + 1) (')' :: cs) (.cons rfl)
  exact ⟨_, _, _, hs.group, Derives.group rfl rfl (hd.loosen p.precedence_sum_le)⟩

end Writes

/-- **An expression is written as a factor,** if its literals are finite and have no
    sign. -/
theorem writes_render (e : Expr)
    (h : ∀ v ∈ e.literals, v.isFinite = true ∧ v.toBits.toNat < 2 ^ 63) :
    Writes .factor e.render.toList e := by
  induction e with
  | number v =>
    obtain ⟨hfin, hlt⟩ := h v (by simp [Expr.literals])
    exact .number (Number.isLexeme_plain hfin hlt) (Number.read_plain hfin hlt)
  | binary op left right ihl ihr =>
    have hl := ihl fun v hv => h v (by simp [Expr.literals, hv])
    have hr := ihr fun v hv => h v (by simp [Expr.literals, hv])
    have hb := (Writes.binary op hl hr).group
    have htext : (Expr.binary op left right).render.toList =
        '(' :: ((left.render.toList ++ ' ' :: (op.symbol.toList ++ ' ' :: right.render.toList)) ++
          [')']) := by
      simp [Expr.render]
    rw [htext]
    exact hb
  | signed sign operand ih =>
    have ho := ih h
    rw [Expr.render, String.toList_append]
    exact ho.signed sign
  | call f argument ih =>
    have hc := (ih h).call f
    have htext : (Expr.call f argument).render.toList =
        f.name.toList ++ '(' :: (argument.render.toList ++ [')']) := by
      simp [Expr.render]
    rw [htext]
    exact hc

/-- A text that is a phrase wherever it stands is read as its expression. -/
theorem Writes.parse {p : Phrase} {text : String} {e : Expr} (h : Writes p text.toList e) :
    (⟨none⟩ : Calculator).parse text = .ok e := by
  obtain ⟨t, ts, n, hs, hd⟩ := h 0 [] .nil
  rw [List.append_nil] at hs
  have ht : tokenize text = .ok (t :: ts ++ [.finish n]) := by
    rw [tokenize, ofString, hs.tokens_eq, tokens_nil]
    rfl
  rw [Calculator.parse, ht]
  change (Reader.ofTokens (t :: ts ++ [.finish n]) none).read.result = .ok e
  rw [Reader.ofTokens_append_finish (fun t => hs.isFinish_of_mem) rfl]
  exact (Reader.result_run_initial _ _ _).2 (hd.loosen p.precedence_sum_le)

/-! ## Reading -/

/-- The literals of a phrase are the values of its tokens. -/
theorem exists_token_of_mem_literals {p : Phrase} (d : Derivation p) {v : Float}
    (hv : v ∈ d.tree.literals) : ∃ t ∈ d.tokens, t.value = v := by
  induction d with
  | number t ht => exact ⟨t, by simp [Derivation.tokens], (List.mem_singleton.1 hv).symm⟩
  | base d ih | first c d ih => exact ih hv
  | signed sign t ht d ih | group l r hl hr d ih | call f t l r ht hl hr d ih =>
    obtain ⟨u, hu, rfl⟩ := ih hv
    exact ⟨u, by simp [Derivation.tokens, hu], rfl⟩
  | power b t ht d ihb ihd =>
    rcases List.mem_append.1 hv with hv | hv
    · obtain ⟨u, hu, rfl⟩ := ihb hv
      exact ⟨u, by simp [Derivation.tokens, hu], rfl⟩
    · obtain ⟨u, hu, rfl⟩ := ihd hv
      exact ⟨u, by simp [Derivation.tokens, hu], rfl⟩
  | link c front op t hop ht d ihf ihd =>
    rcases List.mem_append.1 hv with hv | hv
    · obtain ⟨u, hu, rfl⟩ := ihf hv
      exact ⟨u, by simp [Derivation.tokens, hu], rfl⟩
    · obtain ⟨u, hu, rfl⟩ := ihd hv
      exact ⟨u, by simp [Derivation.tokens, hu], rfl⟩

/-- **The literals of an expression that was read are numbers, and have no sign.** -/
theorem unsigned_of_parse {c : Calculator} {s : String} {e : Expr} (h : c.parse s = .ok e) :
    ∀ v ∈ e.literals, Double.Unsigned v := by
  intro v hv
  rw [Calculator.parse] at h
  cases hts : tokenize s with
  | error x =>
    rw [hts] at h
    cases h
  | ok ts =>
    rw [hts] at h
    obtain ⟨d, hd, rfl⟩ := Reader.derives_of_result_run h
    obtain ⟨t, ht, rfl⟩ := exists_token_of_mem_literals d hv
    rw [hd] at ht
    obtain ⟨ps, last, -, -, -, rfl⟩ := exists_pieces hts
    rcases List.mem_append.1 (List.takeWhile_subset _ ht) with ht | ht
    · obtain ⟨m, kind, text, rfl⟩ := Piece.exists_of_mem_tokens ht
      exact unsigned_value m kind text
    · rw [List.mem_singleton.1 ht]
      exact Number.unsigned_zero

/-! ## Round trips -/

/-- What was read is written as itself, if its literals are finite. -/
theorem parse_render_of_parse {c : Calculator} {s : String} {e : Expr} (h : c.parse s = .ok e)
    (hfin : ∀ v ∈ e.literals, v.isFinite = true) : (⟨none⟩ : Calculator).parse e.render = .ok e :=
  (writes_render e fun v hv => ⟨hfin v hv, (unsigned_of_parse h v hv).lt⟩).parse

/-- **Writing an expression and reading it again changes nothing.** Literals that are
    read are numbers without sign, and so this holds of each expression that was read
    and whose literals are finite. -/
theorem parse_render :
    (∀ e : Expr, (∀ v ∈ e.literals, v.isFinite = true ∧ v.toBits.toNat < 2 ^ 63) →
      (⟨none⟩ : Calculator).parse e.render = .ok e) ∧
    (∀ (c : Calculator) (s : String) (e : Expr), c.parse s = .ok e →
      ∀ v ∈ e.literals, v.isNaN = false ∧ v.toBits.toNat < 2 ^ 63) ∧
    (∀ (c : Calculator) (s : String) (e : Expr), c.parse s = .ok e →
      (∀ v ∈ e.literals, v.isFinite = true) → (⟨none⟩ : Calculator).parse e.render = .ok e) := by
  refine ⟨fun e h => (writes_render e h).parse, ?_, fun c s e => parse_render_of_parse⟩
  intro c s e h v hv
  have hu := unsigned_of_parse h v hv
  exact ⟨hu.isNaN_eq, hu.lt⟩

/-- The power `(-0.1 ^ sqrt(2))`, whose base has no short binary form. -/
def signedTenth : Expr :=
  .binary .power (.signed .minus (.number 0.1)) (.call .sqrt (.number 2))

theorem parse_render_signedTenth :
    (∀ v ∈ signedTenth.literals, v.isFinite = true ∧ v.toBits.toNat < 2 ^ 63) ∧
      (⟨none⟩ : Calculator).parse signedTenth.render = .ok signedTenth ∧
      ∀ v ∈ signedTenth.literals, v.isNaN = false ∧ v.toBits.toNat < 2 ^ 63 := by
  obtain ⟨hwritten, hsign, hread⟩ := parse_render
  have h : ∀ v ∈ signedTenth.literals, v.isFinite = true ∧ v.toBits.toNat < 2 ^ 63 := by
    decide +kernel
  have hparse := hwritten signedTenth h
  exact ⟨h, hread _ _ _ hparse fun v hv => (h v hv).1, hsign _ _ _ hparse⟩

end Reckon
