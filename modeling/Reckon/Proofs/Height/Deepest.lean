/-
  Texts of expressions that are as high as their cost allows.

  * `Measures p w cost links depth`: the text `w` is a phrase of the kind `p` with
    these measures, wherever it stands; there is one lemma for each way in which
    the texts are put together;
  * `deepest b` is a sum whose one operand that is no number holds `deepest` of
    one less;
  * `measures_deepest`: it costs `b` and is as high as any sum that does.
-/
import Reckon.Proofs.Height.Bound
import Reckon.Proofs.Scanning

namespace Reckon

open Scanner

/-- A text that is a phrase with these measures wherever it stands, unless a number
    goes on behind it. -/
def Measures (p : Phrase) (w : List Char) (cost links depth : Nat) : Prop :=
  ∀ n cs, Stops Lexeme.isNumberChar cs → ∃ (d : Derivation p) (n' : Nat),
    Scans ⟨n, w ++ cs⟩ d.tokens ⟨n', cs⟩ ∧
      d.cost = cost ∧ d.links = links ∧ d.tree.depth = depth

namespace Measures

variable {w x : List Char} {k l h k' l' h' : Nat}

theorem one : Measures .factor ['1'] 0 0 1 := by
  intro n cs hcs
  have hs : Scans ⟨n, '1' :: cs⟩ [token n .number ['1']] ⟨n + 1, cs⟩ :=
    .digits (w := []) rfl (by simp) hcs n
  exact ⟨.number (token n .number ['1']) rfl, n + 1, hs, rfl, rfl, rfl⟩

theorem base (hw : Measures .factor w k l h) : Measures .power w k 0 h := by
  intro n cs hcs
  obtain ⟨d, n', hs, hk, -, hh⟩ := hw n cs hcs
  exact ⟨.base d, n', hs, hk, rfl, hh⟩

theorem first {c : Chain} (hw : Measures c.operand w k l h) : Measures (.chain c) w k 0 h := by
  intro n cs hcs
  obtain ⟨d, n', hs, hk, -, hh⟩ := hw n cs hcs
  exact ⟨.first c d, n', hs, hk, rfl, hh⟩

theorem call (f : Function) (hw : Measures (.chain .sum) w k l h) :
    Measures .factor (f.name.toList ++ '(' :: (w ++ [')'])) (1 + k) 0 (1 + h) := by
  intro n cs hcs
  obtain ⟨d, n', hs, rfl, -, rfl⟩ := hw (n + f.name.toList.length + 1) (')' :: cs) (.cons rfl)
  exact ⟨.call f (token n (.function f) f.name.toList)
    (token (n + f.name.toList.length) .leftParen ['(']) (token n' .rightParen [')'])
    rfl rfl rfl d, n' + 1, hs.call f, rfl, rfl, rfl⟩

/-- A symbol between two phrases. -/
theorem scans_between {n n₁ n₂ : Nat} {ts us : List Token} {s : Char} {cs : List Char}
    (hw : Scans ⟨n, w ++ s :: (x ++ cs)⟩ ts ⟨n₁, s :: (x ++ cs)⟩)
    (hs : Lexeme.symbol s ≠ .invalid) (hx : Scans ⟨n₁ + 1, x ++ cs⟩ us ⟨n₂, cs⟩) :
    Scans ⟨n, (w ++ s :: x) ++ cs⟩ (ts ++ token n₁ (Lexeme.symbol s) [s] :: us) ⟨n₂, cs⟩ := by
  have hall := hw.append ((Scans.symbol hs n₁ (x ++ cs)).append hx)
  simpa using hall

theorem power (hw : Measures .factor w k l h) (hx : Measures .power x k' l' h') :
    Measures .power (w ++ '^' :: x) (max k (1 + k')) 0 (1 + max h h') := by
  intro n cs hcs
  obtain ⟨b, n₁, hb, rfl, -, rfl⟩ := hw n ('^' :: (x ++ cs)) (.cons rfl)
  obtain ⟨d, n₂, hd, rfl, -, rfl⟩ := hx (n₁ + 1) cs hcs
  have hs := scans_between hb (by simp [Lexeme.symbol]) hd
  exact ⟨.power b (token n₁ .caret ['^']) rfl d, n₂, hs, rfl, rfl, rfl⟩

theorem link {c : Chain} {op : BinaryOp} {s : Char} (hop : op ∈ c.operators)
    (ht : BinaryOp.ofKind? (Lexeme.symbol s) = some op) (hw : Measures (.chain c) w k l h)
    (hx : Measures c.operand x k' l' h') :
    Measures (.chain c) (w ++ s :: x) (max k (l + 1 + k')) (l + 1) (1 + max h h') := by
  intro n cs hcs
  have hi := BinaryOp.kind_ne_invalid ht
  obtain ⟨front, n₁, hf, rfl, rfl, rfl⟩ := hw n (s :: (x ++ cs))
    (.cons (Lexeme.classes_of_symbol hi).2.1)
  obtain ⟨d, n₂, hd, rfl, -, rfl⟩ := hx (n₁ + 1) cs hcs
  have hs := scans_between hf hi hd
  exact ⟨.link c front op (token n₁ (Lexeme.symbol s) [s]) hop ht d, n₂, hs, rfl, rfl, rfl⟩

/-- Many times the same link, with a number as its operand. -/
theorem links {c : Chain} {op : BinaryOp} {s : Char} (hop : op ∈ c.operators)
    (ht : BinaryOp.ofKind? (Lexeme.symbol s) = some op) (hw : Measures (.chain c) w k 0 h)
    (hh : 1 ≤ h) (j : Nat) :
    Measures (.chain c) (w ++ (List.replicate j [s, '1']).flatten) (max k j) j (h + j) := by
  have hx : Measures c.operand ['1'] 0 0 1 := by
    cases c with
    | sum => exact first (c := .product) one.base
    | product => exact one.base
  induction j with
  | zero => simpa using hw
  | succ j ih =>
    have hl := ih.link hop ht hx
    have hk : max (max k j) (j + 1 + 0) = max k (j + 1) := by omega
    have hd : 1 + max (h + j) 1 = h + (j + 1) := by omega
    rw [hk, hd, List.append_assoc] at hl
    rw [List.replicate_succ', List.flatten_append]
    exact hl

end Measures

/-! ## The texts -/

/-- A text that costs `b` and is as high as possible. -/
def deepest : Nat → List Char
  | 0 => ['1']
  | b + 1 =>
    Function.exp.name.toList ++ '(' :: (deepest b ++ [')']) ++ '^' :: ['1'] ++
      (List.replicate (b + 1) ['*', '1']).flatten ++ (List.replicate (b + 1) ['+', '1']).flatten

theorem measures_deepest (b : Nat) :
    Measures (.chain .sum) (deepest b) b b ((Phrase.chain .sum).height b) := by
  induction b with
  | zero => exact .first (c := .sum) (.first (c := .product) Measures.one.base)
  | succ b ih =>
    have hpower := (ih.call .exp).power Measures.one.base
    have hproduct := (Measures.first (c := .product) hpower).links (s := '*')
      (show .multiply ∈ Chain.product.operators by simp [Chain.operators]) rfl (by omega) (b + 1)
    have hsum := (Measures.first (c := .sum) hproduct).links (s := '+')
      (show .add ∈ Chain.sum.operators by simp [Chain.operators]) rfl (by omega) (b + 1)
    have hcost : max (max (max (1 + b) (1 + 0)) (b + 1)) (b + 1) = b + 1 := by omega
    have hdepth : 1 + max (1 + (Phrase.chain .sum).height b) 1 + (b + 1) + (b + 1) =
        (Phrase.chain .sum).height (b + 1) := by
      rw [Nat.add_comm b 1, Phrase.height_sum_succ]
      omega
    rw [hcost, hdepth] at hsum
    exact hsum

end Reckon
