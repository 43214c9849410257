/-
  Every derivation is read.

  Reading the tokens of a derivation leaves an operand whose last parts may still
  be open: the signs and operators of the derivation close only at the token behind
  it. So the statement is about what the stack closes to.

  * `Reads d σ e τ`: from the stack `σ`, the derivation `d` is read up to the
    operand `e` on the stack `τ`, and what is still open closes to the expression
    of `d` on `σ`; reading it takes the depth `d.cost` more than `σ` has;
  * `exists_reads`: this holds of each derivation and each stack that admits it,
    by induction on the derivation, with one lemma for each of its constructors.
-/
import Reckon.Proofs.Reading

namespace Reckon.Reader

open State

/-- A derivation is read from the stack `σ` up to the operand `e` on the stack `τ`. -/
structure Reads {p : Phrase} (d : Derivation p) (σ : List Frame) (e : Expr) (τ : List Frame) :
    Prop where
  leads : Leads ⟨.factor, σ⟩ d.tokens (depth σ + d.cost) ⟨.complete e, τ⟩
  /-- What binds less tightly than the phrase finds its expression. -/
  closes : ∀ q < p.precedence, closeTighter q e τ = closeTighter q d.tree σ
  /-- An operator that goes on with the chain finds it with all its links. -/
  joins : ∀ (c : Chain) (op : BinaryOp), p = .chain c → op ∈ c.operators →
    leftOperand op e τ = (d.tree, σ, depth σ + d.links)

namespace Reads

variable {σ τ τ' : List Frame} {e e' : Expr} {t : Token}

theorem number (ht : t.kind = .number) (σ : List Frame) :
    Reads (.number t ht) σ (.number t.value) σ where
  leads := .single (.number rfl ht)
  closes _ _ := rfl
  joins _ _ hc := nomatch hc

theorem signed {sign : Sign} (ht : Sign.ofKind? t.kind = some sign) {d : Derivation .factor}
    (h : Reads d (⟨.sign sign, depth σ + 1⟩ :: σ) e τ) : Reads (.signed sign t ht d) σ e τ where
  leads := by
    have hl := Leads.cons (.sign (s := ⟨.factor, σ⟩) rfl ht) h.leads
    have hm : max (depth σ) (depth σ + 1 + d.cost) = depth σ + (1 + d.cost) := by omega
    rw [Derivation.cost, ← hm]
    exact hl
  closes q hq := by
    rw [h.closes q hq, closeTighter_sign]
    rfl
  joins _ _ hc := nomatch hc

/-- Behind the sum in a bracket, the closing bracket makes a factor of it. -/
theorem rightParen {b : Bracket} {n : Nat} {d : Derivation (.chain .sum)} {r : Token}
    (hr : r.kind = .rightParen) (h : Reads d (⟨.bracket b, n⟩ :: σ) e τ) :
    Leads ⟨.factor, ⟨.bracket b, n⟩ :: σ⟩ (d.tokens ++ [r]) (n + d.cost)
      ⟨.complete (b.close d.tree), σ⟩ := by
  have hc : closeTighter 0 e τ = (d.tree, ⟨.bracket b, n⟩ :: σ) := by
    rw [h.closes 0 (Phrase.precedence_pos _), closeTighter_bracket]
  have hl := h.leads.append (.single (.rightParen hr hc))
  have hm : max (n + d.cost) 0 = n + d.cost := by omega
  rw [← hm]
  exact hl

theorem group {l r : Token} (hl : l.kind = .leftParen) (hr : r.kind = .rightParen)
    {d : Derivation (.chain .sum)} (h : Reads d (⟨.bracket .group, depth σ + 1⟩ :: σ) e τ) :
    Reads (.group l r hl hr d) σ d.tree σ where
  leads := by
    have hi := Leads.cons (.leftParen (s := ⟨.factor, σ⟩) rfl hl) (h.rightParen hr)
    have hm : max (depth σ) (depth σ + 1 + d.cost) = depth σ + (1 + d.cost) := by omega
    rw [Derivation.cost, ← hm]
    exact hi
  closes _ _ := rfl
  joins _ _ hc := nomatch hc

theorem call {f : Function} {l r : Token} (ht : t.kind = .function f) (hl : l.kind = .leftParen)
    (hr : r.kind = .rightParen) {d : Derivation (.chain .sum)}
    (h : Reads d (⟨.bracket (.call f), depth σ + 1⟩ :: σ) e τ) :
    Reads (.call f t l r ht hl hr d) σ (.call f d.tree) σ where
  leads := by
    have hi := Leads.cons (.function (s := ⟨.factor, σ⟩) rfl ht)
      (Leads.cons (.name hl) ((h.rightParen hr).argument (by simp)))
    have hm : max (depth σ) (max 0 (depth σ + 1 + d.cost)) = depth σ + (1 + d.cost) := by omega
    rw [Derivation.cost, ← hm]
    exact hi
  closes _ _ := rfl
  joins _ _ hc := nomatch hc

theorem base {d : Derivation .factor} (h : Reads d σ e τ) : Reads (.base d) σ e τ where
  leads := h.leads
  closes q hq := h.closes q (Nat.lt_succ_of_lt hq)
  joins _ _ hc := nomatch hc

/-- An operator that binds less tightly than the phrase finds its expression. -/
theorem leftOperand_eq {p : Phrase} {d : Derivation p} (h : Reads d σ e τ) {op : BinaryOp}
    (hop : op.precedence < p.precedence) : leftOperand op e τ = leftOperand op d.tree σ := by
  rw [leftOperand, leftOperand, h.closes _ hop]

theorem power {b : Derivation .factor} (ht : t.kind = .caret) {d : Derivation .power}
    (hσ : Admits .power σ) (hb : Reads b σ e τ)
    (hd : Reads d (⟨.operand b.tree .power, depth σ + 1⟩ :: σ) e' τ') :
    Reads (.power b t ht d) σ e' τ' where
  leads := by
    have hop : leftOperand .power e τ = (b.tree, σ, depth σ) := by
      rw [hb.leftOperand_eq (BinaryOp.precedence_lt_factor _)]
      exact leftOperand_of_admits hσ
    have hk : BinaryOp.ofKind? t.kind = some .power := by rw [ht]; rfl
    have hl := hb.leads.append (.cons (.operator hk hop) hd.leads)
    have hm : max (depth σ + b.cost) (max 0 (depth σ + 1 + d.cost)) =
        depth σ + max b.cost (1 + d.cost) := by omega
    rw [Derivation.cost, ← hm]
    exact hl
  closes q hq := by
    rw [hd.closes q hq, closeTighter_operand_lt hq]
    rfl
  joins _ _ hc := nomatch hc

theorem first {c : Chain} {d : Derivation c.operand} (hσ : Admits (.chain c) σ)
    (h : Reads d σ e τ) : Reads (.first c d) σ e τ where
  leads := h.leads
  closes q hq := h.closes q (by rw [c.precedence_operand]; exact Nat.lt_succ_of_lt hq)
  joins c' op hc hop := by
    cases hc
    rw [h.leftOperand_eq (BinaryOp.precedence_lt_of_mem hop),
      leftOperand_of_admits (BinaryOp.mem_operators.1 hop ▸ hσ)]
    rfl

theorem link {c : Chain} {front : Derivation (.chain c)} {op : BinaryOp} (hop : op ∈ c.operators)
    (ht : BinaryOp.ofKind? t.kind = some op) {d : Derivation c.operand}
    (hf : Reads front σ e τ)
    (hd : Reads d (⟨.operand front.tree op, depth σ + front.links + 1⟩ :: σ) e' τ') :
    Reads (.link c front op t hop ht d) σ e' τ' where
  leads := by
    have hl := hf.leads.append (.cons (.operator ht (hf.joins c op rfl hop)) hd.leads)
    have hm : max (depth σ + front.cost) (max 0 (depth σ + front.links + 1 + d.cost)) =
        depth σ + max front.cost (front.links + 1 + d.cost) := by omega
    rw [Derivation.cost, ← hm]
    exact hl
  closes q hq := by
    have hlt : q < op.precedence := by
      rw [BinaryOp.precedence_of_mem hop]
      exact hq
    rw [hd.closes q (Nat.lt_trans hlt (BinaryOp.precedence_lt_of_mem hop)),
      closeTighter_operand_lt hlt]
    rfl
  joins c' op' hc hop' := by
    cases hc
    -- The operator before it is of the same chain, so it does not close with what
    -- binds tighter, but it joins.
    have hp : op.precedence = op'.precedence := by
      rw [BinaryOp.precedence_of_mem hop, BinaryOp.precedence_of_mem hop']
    rw [hd.leftOperand_eq (BinaryOp.precedence_lt_of_mem hop'), leftOperand,
      closeTighter_operand_le (Nat.le_of_eq hp),
      closeLink_joins (BinaryOp.groupsLeft_of_mem hop') hp]
    rfl

end Reads

/-- **Each derivation is read from each stack that admits it.** -/
theorem exists_reads {p : Phrase} (d : Derivation p) {σ : List Frame} (hσ : Admits p σ) :
    ∃ e τ, Reads d σ e τ := by
  induction d generalizing σ with
  | number t ht => exact ⟨_, _, .number ht σ⟩
  | signed sign t ht d ih =>
    obtain ⟨e, τ, h⟩ := ih (σ := ⟨.sign sign, depth σ + 1⟩ :: σ) (admits_factor _)
    exact ⟨e, τ, h.signed ht⟩
  | group l r hl hr d ih =>
    obtain ⟨e, τ, h⟩ := ih (σ := ⟨.bracket .group, depth σ + 1⟩ :: σ) trivial
    exact ⟨_, _, h.group hl hr⟩
  | call f t l r ht hl hr d ih =>
    obtain ⟨e, τ, h⟩ := ih (σ := ⟨.bracket (.call f), depth σ + 1⟩ :: σ) trivial
    exact ⟨_, _, h.call ht hl hr⟩
  | base d ih =>
    obtain ⟨e, τ, h⟩ := ih (admits_factor σ)
    exact ⟨e, τ, h.base⟩
  | power b t ht d ihb ihd =>
    obtain ⟨e, τ, hb⟩ := ihb (admits_factor σ)
    obtain ⟨e', τ', hd⟩ := ihd (σ := ⟨.operand b.tree .power, depth σ + 1⟩ :: σ)
      (Nat.le_refl _)
    exact ⟨e', τ', .power ht hσ hb hd⟩
  | first c d ih =>
    obtain ⟨e, τ, h⟩ := ih (hσ.tighter (by rw [c.precedence_operand]; exact Nat.le_succ _))
    exact ⟨e, τ, h.first hσ⟩
  | link c front op t hop ht d ihf ihd =>
    obtain ⟨e, τ, hf⟩ := ihf hσ
    obtain ⟨e', τ', hd⟩ := ihd (σ := ⟨.operand front.tree op, depth σ + front.links + 1⟩ :: σ)
      (Nat.le_of_eq (by rw [BinaryOp.right_of_mem hop]))
    exact ⟨e', τ', .link hop ht hf hd⟩

/-- Reading a derivation of a sum from the start leads to a state that may end
    with its expression. -/
theorem exists_leads (d : Derivation (.chain .sum)) (stop : Span) :
    ∃ s, Leads .initial d.tokens d.cost s ∧ s.finish stop = .ok d.tree := by
  obtain ⟨e, τ, h⟩ := exists_reads d (admits_nil _)
  refine ⟨⟨.complete e, τ⟩, ?_, ?_⟩
  · have hl := h.leads
    rw [depth, Nat.zero_add] at hl
    exact hl
  · have hc : closeTighter 0 e τ = (d.tree, []) := h.closes 0 (Phrase.precedence_pos _)
    simp only [finish, hc]

end Reckon.Reader
