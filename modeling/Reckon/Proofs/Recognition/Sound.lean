/-
  Only derivations are read.

  * `Spells σ ts`: the frames of the stack `σ` were opened by the tokens `ts`, and
    each left operand on it is a phrase that may stand there;
  * `Operand p σ ts e`: the tokens `ts` are those of the stack `σ` and then a
    phrase of the kind `p` with the expression `e`, which may stand there;
  * `Operand.closeTighter` and `Operand.leftOperand`: closing frames makes larger
    phrases of the same tokens;
  * `Step.spells`: a token keeps `State.Spells`, which says of a state what it
    spells; so a sum is all that may end (`derives_of_finish`).
-/
import Reckon.Proofs.Reading

namespace Reckon.Reader

/-- The tokens that opened a stack. -/
inductive Spells : List Frame → List Token → Prop where
  | nil : Spells [] []
  | sign {σ : List Frame} {ts : List Token} {sign : Sign} {t : Token} (n : Nat) (h : Spells σ ts)
      (ht : Sign.ofKind? t.kind = some sign) : Spells (⟨.sign sign, n⟩ :: σ) (ts ++ [t])
  | group {σ : List Frame} {ts : List Token} {l : Token} (n : Nat) (h : Spells σ ts)
      (hl : l.kind = .leftParen) : Spells (⟨.bracket .group, n⟩ :: σ) (ts ++ [l])
  | call {σ : List Frame} {ts : List Token} {f : Function} {t l : Token} (n : Nat)
      (h : Spells σ ts) (ht : t.kind = .function f) (hl : l.kind = .leftParen) :
      Spells (⟨.bracket (.call f), n⟩ :: σ) (ts ++ [t] ++ [l])
  | operand {σ : List Frame} {ts us : List Token} {e : Expr} {op : BinaryOp} {t : Token} (n : Nat)
      (h : Spells σ ts) (hσ : Admits op.phrase σ) (he : Derives op.left us e)
      (ht : BinaryOp.ofKind? t.kind = some op) :
      Spells (⟨.operand e op, n⟩ :: σ) (ts ++ us ++ [t])

/-- The tokens of a stack and of a phrase on top of it, which may stand there. -/
structure Operand (p : Phrase) (σ : List Frame) (ts : List Token) (e : Expr) : Prop where
  admits : Admits p σ
  spells : ∃ us vs, ts = us ++ vs ∧ Spells σ us ∧ Derives p vs e

namespace Operand

variable {p : Phrase} {σ : List Frame} {ts : List Token} {e : Expr} {op : BinaryOp}

theorem loosen {q : Phrase} (h : Operand p σ ts e) (hq : q.precedence ≤ p.precedence)
    (hσ : Admits q σ) : Operand q σ ts e := by
  obtain ⟨us, vs, rfl, hs, hd⟩ := h.spells
  exact ⟨hσ, us, vs, rfl, hs, hd.loosen hq⟩

/-! ## Closing one frame -/

theorem closeSign {sign : Sign} {n : Nat} (h : Operand p (⟨.sign sign, n⟩ :: σ) ts e) :
    Operand .factor σ ts (.signed sign e) := by
  obtain ⟨hp, us, vs, rfl, hs, hd⟩ := h
  cases hp
  cases hs with
  | @sign _ us _ t _ hs ht => exact ⟨admits_factor σ, us, t :: vs, by simp, hs, hd.signed ht⟩

theorem closeOperand {left : Expr} {n : Nat} (h : Operand p (⟨.operand left op, n⟩ :: σ) ts e) :
    Operand op.phrase σ ts (.binary op left e) := by
  obtain ⟨hp, us, vs, rfl, hs, hd⟩ := h
  cases hs with
  | @operand _ us ws _ _ t _ hs hσ he ht =>
    exact ⟨hσ, us, ws ++ t :: vs, by simp, hs, he.binary ht (hd.loosen hp)⟩

/-- The bracket around a sum closes at a token behind it. -/
theorem closeBracket {b : Bracket} {n : Nat} {r : Token}
    (h : Operand p (⟨.bracket b, n⟩ :: σ) ts e) (hr : r.kind = .rightParen) :
    Operand .factor σ (ts ++ [r]) (b.close e) := by
  obtain ⟨-, us, vs, rfl, hs, hd⟩ := h
  have hsum := hd.loosen p.precedence_sum_le
  cases hs with
  | @group _ us l _ hs hl =>
    exact ⟨admits_factor σ, us, l :: (vs ++ [r]), by simp, hs, hsum.group hl hr⟩
  | @call _ us f t l _ hs ht hl =>
    exact ⟨admits_factor σ, us, t :: l :: (vs ++ [r]), by simp, hs, hsum.call ht hl hr⟩

/-! ## Closing many frames -/

/-- Nothing on top of the stack binds tighter than the precedence `q`. -/
def Closed (q : Nat) : List Frame → Prop
  | ⟨.sign _, _⟩ :: _ => False
  | ⟨.operand _ op, _⟩ :: _ => op.precedence ≤ q
  | _ => True

theorem closeTighter {q : Nat} (h : Operand p σ ts e) (hq : q < p.precedence) :
    Closed q (Reader.closeTighter q e σ).2 ∧ ∃ p' : Phrase, q < p'.precedence ∧
      Operand p' (Reader.closeTighter q e σ).2 ts (Reader.closeTighter q e σ).1 := by
  induction σ generalizing p e with
  | nil => exact ⟨trivial, p, hq, h⟩
  | cons frame σ ih =>
    -- Where closing goes on, the closed frame made a phrase that binds tighter than `q`.
    match frame, h with
    | ⟨.bracket b, n⟩, h => exact ⟨trivial, p, hq, h⟩
    | ⟨.sign sign, n⟩, h =>
      have hp : p = .factor := h.admits
      exact ih h.closeSign (by rw [← hp]; exact hq)
    | ⟨.operand left op, n⟩, h =>
      by_cases hlt : q < op.precedence
      · rw [closeTighter_operand_lt hlt]
        exact ih h.closeOperand (by rw [op.precedence_phrase]; exact hlt)
      · have hle := Nat.not_lt.1 hlt
        rw [closeTighter_operand_le hle]
        exact ⟨hle, p, hq, h⟩

/-- A stack that is closed down to an operator and not a link of its chain admits a
    phrase of its kind. -/
theorem admits_of_closed (h : Closed op.precedence σ) (hl : ¬ IsLink op σ) :
    Admits op.phrase σ := by
  match σ, h, hl with
  | [], _, _ | ⟨.bracket _, _⟩ :: _, _, _ => trivial
  | ⟨.operand _ op', _⟩ :: _, h, hl =>
    rw [Admits, BinaryOp.precedence_phrase]
    rcases Nat.lt_or_eq_of_le h with hlt | heq
    · exact Nat.le_trans op'.precedence_right_le hlt
    · have hg : op'.groupsLeft = false := by
        rw [BinaryOp.groupsLeft_congr heq]
        exact Bool.eq_false_iff.2 fun hg => hl ⟨hg, heq⟩
      rw [BinaryOp.precedence_right_of_not_groupsLeft hg]
      exact h

/-- **What an operator takes is a phrase that may stand at its left.** -/
theorem leftOperand (h : Operand p σ ts e) (hop : op.precedence < p.precedence) {left : Expr}
    {below : List Frame} {n : Nat} (hl : Reader.leftOperand op e σ = (left, below, n)) :
    Admits op.phrase below ∧ Operand op.left below ts left := by
  obtain ⟨hc, p', hp', h'⟩ := h.closeTighter hop
  rw [Reader.leftOperand] at hl
  generalize (Reader.closeTighter op.precedence e σ).1 = e' at hl h'
  generalize (Reader.closeTighter op.precedence e σ).2 = σ' at hl h' hc
  -- The operator goes on with a chain, or it begins a phrase of its kind.
  by_cases hlink : IsLink op σ'
  · obtain ⟨left', op', n', σ'', rfl, hg, heq⟩ := exists_of_isLink hlink
    rw [closeLink_joins hg heq] at hl
    cases hl
    have hjoin := h'.closeOperand
    rw [BinaryOp.phrase_congr heq] at hjoin
    rw [BinaryOp.left_of_groupsLeft hg]
    exact ⟨hjoin.admits, hjoin⟩
  · rw [closeLink_of_not_isLink hlink] at hl
    cases hl
    have hσ := admits_of_closed hc hlink
    refine ⟨hσ, h'.loosen (Nat.le_trans op.precedence_left_le hp') (hσ.tighter ?_)⟩
    rw [op.precedence_phrase]
    exact op.precedence_le_left

end Operand

/-! ## States -/

/-- The tokens that led to a state. -/
def State.Spells (s : State) (ts : List Token) : Prop :=
  match s.mode with
  | .factor | .argument => Reader.Spells s.stack ts
  | .name f => ∃ us t, ts = us ++ [t] ∧ Reader.Spells s.stack us ∧ t.kind = .function f
  | .complete e => Operand .factor s.stack ts e

variable {s s' : State} {ts : List Token} {t : Token}

theorem spells_stack (hs : s.wantsFactor = true) (h : s.Spells ts) : Spells s.stack ts := by
  obtain ⟨mode, σ⟩ := s
  cases mode with
  | factor | argument => exact h
  | name _ | complete _ => cases hs

/-- **A token that is taken leads to a state that spells it.** -/
theorem Step.spells (hs : Step t s s') (h : s.Spells ts) : s'.Spells (ts ++ [t]) := by
  cases hs with
  | number hs ht =>
    exact ⟨admits_factor _, ts, [t], rfl, spells_stack (s := s) hs h, .number ht⟩
  | sign hs ht => exact .sign _ (spells_stack hs h) ht
  | leftParen hs ht => exact .group _ (spells_stack hs h) ht
  | function hs ht => exact ⟨ts, t, rfl, spells_stack (s := s) hs h, ht⟩
  | name ht =>
    obtain ⟨us, t', rfl, h, ht'⟩ := h
    exact .call _ h ht' ht
  | @operator _ _ _ _ op _ ht hl =>
    obtain ⟨hσ, hop⟩ := Operand.leftOperand h op.precedence_lt_factor hl
    obtain ⟨us, vs, rfl, hs, hd⟩ := hop.spells
    exact .operand _ hs hσ hd ht
  | rightParen ht hc =>
    obtain ⟨-, p, -, hop⟩ := Operand.closeTighter h (Phrase.precedence_pos .factor)
    rw [hc] at hop
    exact hop.closeBracket ht

theorem spells_after {us : List Token} (h : s.Spells ts) (hs : s.after none us = .ok s') :
    s'.Spells (ts ++ us) := by
  induction us generalizing s ts with
  | nil =>
    cases hs
    rwa [List.append_nil]
  | cons u us ih =>
    obtain ⟨s₁, -, hstep, hs₁⟩ := State.exists_of_after_cons hs
    have hspells := ih ((State.step_none_iff.1 hstep).spells h) hs₁
    rwa [List.append_assoc] at hspells

/-- **What may end is a sum.** -/
theorem derives_of_finish {stop : Span} {e : Expr} (h : s.Spells ts)
    (he : s.finish stop = .ok e) : Derives (.chain .sum) ts e := by
  obtain ⟨mode, σ⟩ := s
  cases mode with
  | factor | argument | name _ => cases he
  | complete e' =>
    obtain ⟨-, p, -, hop⟩ := Operand.closeTighter h (Phrase.precedence_pos .factor)
    rw [State.finish] at he
    dsimp only at he
    split at he
    · next v hc =>
      cases he
      rw [hc] at hop
      obtain ⟨us, vs, rfl, hs, hd⟩ := hop.spells
      cases hs
      exact hd.loosen p.precedence_sum_le
    all_goals cases he

end Reckon.Reader
