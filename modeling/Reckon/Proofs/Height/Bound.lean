/-
  How high an expression is at most.

  * `Phrase.height p b` is the greatest height of an expression of the kind `p`
    that costs `b`;
  * `Derivation.depth_tree_le`: a derivation is no higher, by induction, counting
    the links of its own chain apart.
-/
import Reckon.Proofs.Grammar

namespace Reckon

/-- The greatest height of an expression of a kind that costs `b`. -/
def Phrase.height : Phrase → Nat → Nat
  | factor, b => max 1 (b * b + b)
  | power, b => b * b + b + 1
  | chain .product, b => b * b + 2 * b + 1
  | chain .sum, b => b * b + 3 * b + 1

namespace Phrase

variable {b b' : Nat}

theorem height_mono (p : Phrase) (h : b ≤ b') : p.height b ≤ p.height b' := by
  have hsq : b * b ≤ b' * b' := Nat.mul_le_mul h h
  match p with
  | factor | power | chain .product | chain .sum =>
    simp only [height]
    omega

/-- A chain adds as many links as it costs. -/
theorem height_chain (c : Chain) (b : Nat) : (chain c).height b = c.operand.height b + b := by
  cases c <;> simp only [height, Chain.operand] <;> omega

/-- A sign, a bracket and a call add one, inside which the cost is one less. -/
theorem height_factor_succ (b : Nat) : factor.height (1 + b) = 1 + (chain .sum).height b := by
  have hsq : (1 + b) * (1 + b) = b * b + 2 * b + 1 := by
    rw [Nat.add_mul, Nat.mul_add, Nat.mul_add]
    omega
  simp only [height]
  omega

theorem height_factor_le_power (b : Nat) : factor.height b ≤ power.height b := by
  simp only [height]
  omega

theorem height_factor_le_sum (b : Nat) : factor.height b ≤ (chain .sum).height b := by
  simp only [height]
  omega

/-- A power adds one, if it costs something. -/
theorem height_power_succ (b : Nat) : power.height (1 + b) = 1 + factor.height (1 + b) := by
  simp only [height]
  omega

/-- A sum holds two chains, a power and a factor. -/
theorem height_sum_succ (b : Nat) :
    (chain .sum).height (1 + b) = 2 + (chain .sum).height b + (1 + b) + (1 + b) := by
  rw [height_chain .sum (1 + b), Chain.operand, height_chain .product (1 + b), Chain.operand,
    height_power_succ, height_factor_succ]
  omega

/-- An exponent is no higher than a base. -/
theorem height_power_le_factor (b : Nat) : power.height b ≤ factor.height (1 + b) := by
  rw [height_factor_succ]
  simp only [height]
  omega

/-- The phrases of which a phrase is a chain, or else the phrase itself. -/
def core : Phrase → Phrase
  | chain c => c.operand
  | p => p

end Phrase

namespace Derivation

variable {p : Phrase}

/-- The last operand of a chain costs as much as the chain has links. -/
theorem links_le_cost (d : Derivation p) : d.links ≤ d.cost := by
  cases d with
  | link c front op t hop ht d =>
    simp only [links, cost]
    omega
  | _ => exact Nat.zero_le _

theorem height_core_add_links_le (d : Derivation p) :
    p.core.height d.cost + d.links ≤ p.height d.cost := by
  have hl := d.links_le_cost
  match p, d with
  | .chain c, d =>
    rw [Phrase.height_chain]
    exact Nat.add_le_add_left hl _
  | .power, .base _ | .power, .power _ _ _ _ => exact Nat.le_refl _
  | .factor, .number _ _ | .factor, .signed _ _ _ _ | .factor, .group _ _ _ _ _
  | .factor, .call _ _ _ _ _ _ _ _ => exact Nat.le_refl _

theorem depth_tree_le_core (d : Derivation p) :
    d.tree.depth ≤ p.core.height d.cost + d.links := by
  induction d with
  | number t ht => simp [tree, Expr.depth, cost, links, Phrase.core, Phrase.height]
  | signed sign t ht d ih =>
    have h := Nat.le_trans ih d.height_core_add_links_le
    have hs := Phrase.height_factor_le_sum d.cost
    show 1 + d.tree.depth ≤ Phrase.factor.height (1 + d.cost)
    rw [Phrase.height_factor_succ]
    omega
  | group l r hl hr d ih =>
    have h := Nat.le_trans ih d.height_core_add_links_le
    show d.tree.depth ≤ Phrase.factor.height (1 + d.cost)
    rw [Phrase.height_factor_succ]
    omega
  | call f t l r ht hl hr d ih =>
    have h := Nat.le_trans ih d.height_core_add_links_le
    show 1 + d.tree.depth ≤ Phrase.factor.height (1 + d.cost)
    rw [Phrase.height_factor_succ]
    omega
  | base d ih =>
    have h := Nat.le_trans ih d.height_core_add_links_le
    exact Nat.le_trans h (Phrase.height_factor_le_power d.cost)
  | power b t ht d ihb ihd =>
    have hb := Nat.le_trans ihb b.height_core_add_links_le
    have hd := Nat.le_trans ihd d.height_core_add_links_le
    -- A power costs something, since its exponent does.
    obtain ⟨k, hk⟩ : ∃ k, max b.cost (1 + d.cost) = 1 + k := Nat.exists_eq_add_of_le (by omega)
    have hb' := Phrase.height_mono .factor (show b.cost ≤ 1 + k by omega)
    have hd' := Phrase.height_mono .power (show d.cost ≤ k by omega)
    have hf := Phrase.height_power_le_factor k
    show 1 + max b.tree.depth d.tree.depth ≤ Phrase.power.height (max b.cost (1 + d.cost))
    rw [hk, Phrase.height_power_succ]
    omega
  | first c d ih => exact Nat.le_trans ih d.height_core_add_links_le
  | link c front op t hop ht d ihf ihd =>
    -- The front is higher by one for the new link, and no other operand is.
    have hf : front.tree.depth ≤ c.operand.height front.cost + front.links := ihf
    have hd := Nat.le_trans ihd d.height_core_add_links_le
    obtain ⟨m, hm⟩ : ∃ m, max front.cost (front.links + 1 + d.cost) = m := ⟨_, rfl⟩
    have hf' := Phrase.height_mono c.operand (show front.cost ≤ m by omega)
    have hd' := Phrase.height_mono c.operand (show d.cost ≤ m by omega)
    show 1 + max front.tree.depth d.tree.depth ≤
      c.operand.height (max front.cost (front.links + 1 + d.cost)) + (front.links + 1)
    rw [hm]
    omega

/-- **An expression is no higher than its cost allows.** -/
theorem depth_tree_le (d : Derivation p) : d.tree.depth ≤ p.height d.cost :=
  Nat.le_trans d.depth_tree_le_core d.height_core_add_links_le

end Derivation

end Reckon
