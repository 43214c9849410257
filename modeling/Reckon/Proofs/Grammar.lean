/-
  The grammar of expressions, apart from how they are read.

  * `Phrase` is a kind of phrase: a factor, a power, or one of the two chains that
    group to the left, products and sums;
  * `Derivation p` is a derivation of a phrase of the kind `p`; it has its tokens
    (`Derivation.tokens`), its expression (`Derivation.tree`), and the depth that
    reading it takes (`Derivation.cost`);
  * `Derives p ts e`: the tokens `ts` are a phrase of the kind `p` with the
    expression `e`;
  * `Derives.loosen`: a phrase is also one of each kind that binds less tightly.
-/
import Reckon.Expr.Reader

namespace Reckon

/-- The chains of operands that group to the left. -/
inductive Chain where
  | sum
  | product
deriving DecidableEq, Repr

/-- The kinds of phrases. -/
inductive Phrase where
  | factor
  | power
  | chain (c : Chain)
deriving DecidableEq, Repr

namespace Chain

/-- How tightly the operators of the chain bind. -/
def precedence : Chain → Nat
  | sum => 1
  | product => 2

/-- The operators between the operands of the chain. -/
def operators : Chain → List BinaryOp
  | sum => [.add, .subtract]
  | product => [.multiply, .divide]

/-- The kind of its operands. -/
def operand : Chain → Phrase
  | sum => .chain .product
  | product => .power

end Chain

/-- How tightly a phrase holds together: a factor most. -/
def Phrase.precedence : Phrase → Nat
  | factor => 4
  | power => 3
  | chain c => c.precedence

theorem Phrase.precedence_sum_le (p : Phrase) : (chain .sum).precedence ≤ p.precedence := by
  cases p with
  | chain c => cases c <;> simp [precedence, Chain.precedence]
  | factor | power => simp [precedence, Chain.precedence]

theorem Phrase.precedence_pos (p : Phrase) : 0 < p.precedence :=
  precedence_sum_le p

theorem Chain.precedence_operand (c : Chain) : c.operand.precedence = c.precedence + 1 := by
  cases c <;> rfl

namespace BinaryOp

/-- The kind of phrase that an operator makes. -/
def phrase : BinaryOp → Phrase
  | add | subtract => .chain .sum
  | multiply | divide => .chain .product
  | power => .power

/-- The kind of its left operand. -/
def left : BinaryOp → Phrase
  | power => .factor
  | op => op.phrase

/-- The kind of its right operand. -/
def right : BinaryOp → Phrase
  | add | subtract => .chain .product
  | multiply | divide => .power
  | power => .power

theorem precedence_phrase (op : BinaryOp) : op.phrase.precedence = op.precedence := by
  cases op <;> rfl

theorem precedence_right {op : BinaryOp} (h : op.groupsLeft = true) :
    op.right.precedence = op.precedence + 1 := by
  cases op with
  | power => cases h
  | _ => rfl

theorem precedence_right_of_not_groupsLeft {op : BinaryOp} (h : op.groupsLeft = false) :
    op.right.precedence = op.precedence := by
  cases op with
  | power => rfl
  | _ => cases h

theorem precedence_right_le (op : BinaryOp) : op.right.precedence ≤ op.precedence + 1 := by
  cases op <;> simp [right, precedence, Phrase.precedence, Chain.precedence]

theorem precedence_le_right (op : BinaryOp) : op.precedence ≤ op.right.precedence := by
  cases op <;> simp [right, precedence, Phrase.precedence, Chain.precedence]

theorem precedence_left_le (op : BinaryOp) : op.left.precedence ≤ op.precedence + 1 := by
  cases op <;> simp [left, phrase, precedence, Phrase.precedence, Chain.precedence]

theorem precedence_le_left (op : BinaryOp) : op.precedence ≤ op.left.precedence := by
  cases op <;> simp [left, phrase, precedence, Phrase.precedence, Chain.precedence]

theorem precedence_lt_factor (op : BinaryOp) : op.precedence < Phrase.factor.precedence := by
  cases op <;> simp [precedence, Phrase.precedence]

/-- Operators that bind equally tightly make phrases of one kind. -/
theorem phrase_congr {op op' : BinaryOp} (h : op.precedence = op'.precedence) :
    op.phrase = op'.phrase := by
  revert h
  cases op <;> cases op' <;> simp [precedence, phrase]

theorem groupsLeft_congr {op op' : BinaryOp} (h : op.precedence = op'.precedence) :
    op.groupsLeft = op'.groupsLeft := by
  revert h
  cases op <;> cases op' <;> simp [precedence, groupsLeft]

theorem left_of_groupsLeft {op : BinaryOp} (h : op.groupsLeft = true) : op.left = op.phrase := by
  cases op with
  | power => cases h
  | _ => rfl

theorem mem_operators {c : Chain} {op : BinaryOp} : op ∈ c.operators ↔ op.phrase = .chain c := by
  cases c <;> cases op <;> simp [Chain.operators, phrase]

section

variable {c : Chain} {op : BinaryOp} (h : op ∈ c.operators)
include h

theorem precedence_of_mem : op.precedence = c.precedence := by
  rw [← precedence_phrase, mem_operators.1 h]
  rfl

theorem groupsLeft_of_mem : op.groupsLeft = true := by
  have h := mem_operators.1 h
  cases op with
  | power => cases h
  | _ => rfl

theorem right_of_mem : op.right = c.operand := by
  revert h
  cases c <;> cases op <;> simp [Chain.operators, right, Chain.operand]

theorem precedence_lt_of_mem : op.precedence < c.operand.precedence := by
  rw [c.precedence_operand, precedence_of_mem h]
  exact Nat.lt_succ_self _

end

end BinaryOp

/-- The derivations of a kind of phrase. -/
inductive Derivation : Phrase → Type where
  | number (t : Token) (ht : t.kind = .number) : Derivation .factor
  | signed (sign : Sign) (t : Token) (ht : Sign.ofKind? t.kind = some sign)
      (operand : Derivation .factor) : Derivation .factor
  | group (l r : Token) (hl : l.kind = .leftParen) (hr : r.kind = .rightParen)
      (inner : Derivation (.chain .sum)) : Derivation .factor
  | call (f : Function) (t l r : Token) (ht : t.kind = .function f) (hl : l.kind = .leftParen)
      (hr : r.kind = .rightParen) (argument : Derivation (.chain .sum)) : Derivation .factor
  /-- A factor without exponent. -/
  | base (d : Derivation .factor) : Derivation .power
  | power (base : Derivation .factor) (t : Token) (ht : t.kind = .caret)
      (exponent : Derivation .power) : Derivation .power
  /-- A chain of one operand. -/
  | first (c : Chain) (d : Derivation c.operand) : Derivation (.chain c)
  /-- A chain with one more operand at its end. -/
  | link (c : Chain) (front : Derivation (.chain c)) (op : BinaryOp) (t : Token)
      (hop : op ∈ c.operators) (ht : BinaryOp.ofKind? t.kind = some op)
      (d : Derivation c.operand) : Derivation (.chain c)

namespace Derivation

/-- The tokens of a derivation. -/
def tokens : {p : Phrase} → Derivation p → List Token
  | _, number t _ => [t]
  | _, signed _ t _ d => t :: d.tokens
  | _, group l r _ _ d => l :: (d.tokens ++ [r])
  | _, call _ t l r _ _ _ d => t :: l :: (d.tokens ++ [r])
  | _, base d => d.tokens
  | _, power b t _ d => b.tokens ++ t :: d.tokens
  | _, first _ d => d.tokens
  | _, link _ front _ t _ _ d => front.tokens ++ t :: d.tokens

/-- The expression of a derivation. Brackets leave no trace, and a chain groups
    to the left. -/
def tree : {p : Phrase} → Derivation p → Expr
  | _, number t _ => .number t.value
  | _, signed sign _ _ d => .signed sign d.tree
  | _, group _ _ _ _ d => d.tree
  | _, call f _ _ _ _ _ _ d => .call f d.tree
  | _, base d => d.tree
  | _, power b _ _ d => .binary .power b.tree d.tree
  | _, first _ d => d.tree
  | _, link _ front op _ _ _ d => .binary op front.tree d.tree

/-- How many operators of its own chain a derivation has. -/
def links : {p : Phrase} → Derivation p → Nat
  | _, link _ front _ _ _ _ _ => front.links + 1
  | _, _ => 0

/-- The depth that reading a derivation takes: one more than its inside for a
    sign, a bracket and an exponent, and `i` more for the `i`-th operand behind
    the first one of a chain. -/
def cost : {p : Phrase} → Derivation p → Nat
  | _, number _ _ => 0
  | _, signed _ _ _ d => 1 + d.cost
  | _, group _ _ _ _ d => 1 + d.cost
  | _, call _ _ _ _ _ _ _ d => 1 + d.cost
  | _, base d => d.cost
  | _, power b _ _ d => max b.cost (1 + d.cost)
  | _, first _ d => d.cost
  | _, link _ front _ _ _ _ d => max front.cost (front.links + 1 + d.cost)

end Derivation

/-- Some tokens are a phrase of a kind, with an expression. -/
def Derives (p : Phrase) (ts : List Token) (e : Expr) : Prop :=
  ∃ d : Derivation p, d.tokens = ts ∧ d.tree = e

namespace Derives

variable {ts us : List Token} {e x : Expr}

theorem number {t : Token} (ht : t.kind = .number) : Derives .factor [t] (.number t.value) :=
  ⟨.number t ht, rfl, rfl⟩

theorem signed {sign : Sign} {t : Token} (ht : Sign.ofKind? t.kind = some sign)
    (h : Derives .factor ts e) : Derives .factor (t :: ts) (.signed sign e) := by
  obtain ⟨d, rfl, rfl⟩ := h
  exact ⟨.signed sign t ht d, rfl, rfl⟩

theorem group {l r : Token} (hl : l.kind = .leftParen) (hr : r.kind = .rightParen)
    (h : Derives (.chain .sum) ts e) : Derives .factor (l :: (ts ++ [r])) e := by
  obtain ⟨d, rfl, rfl⟩ := h
  exact ⟨.group l r hl hr d, rfl, rfl⟩

theorem call {f : Function} {t l r : Token} (ht : t.kind = .function f) (hl : l.kind = .leftParen)
    (hr : r.kind = .rightParen) (h : Derives (.chain .sum) ts e) :
    Derives .factor (t :: l :: (ts ++ [r])) (.call f e) := by
  obtain ⟨d, rfl, rfl⟩ := h
  exact ⟨.call f t l r ht hl hr d, rfl, rfl⟩

theorem power {t : Token} (hb : Derives .factor ts e) (ht : t.kind = .caret)
    (hx : Derives .power us x) : Derives .power (ts ++ t :: us) (.binary .power e x) := by
  obtain ⟨b, rfl, rfl⟩ := hb
  obtain ⟨d, rfl, rfl⟩ := hx
  exact ⟨.power b t ht d, rfl, rfl⟩

theorem link {c : Chain} {op : BinaryOp} {t : Token} (hf : Derives (.chain c) ts e)
    (hop : op ∈ c.operators) (ht : BinaryOp.ofKind? t.kind = some op)
    (hx : Derives c.operand us x) : Derives (.chain c) (ts ++ t :: us) (.binary op e x) := by
  obtain ⟨front, rfl, rfl⟩ := hf
  obtain ⟨d, rfl, rfl⟩ := hx
  exact ⟨.link c front op t hop ht d, rfl, rfl⟩

theorem base (h : Derives .factor ts e) : Derives .power ts e := by
  obtain ⟨d, rfl, rfl⟩ := h
  exact ⟨.base d, rfl, rfl⟩

theorem first {c : Chain} (h : Derives c.operand ts e) : Derives (.chain c) ts e := by
  obtain ⟨d, rfl, rfl⟩ := h
  exact ⟨.first c d, rfl, rfl⟩

/-- An operator between its operands makes a phrase of its kind. -/
theorem binary {op : BinaryOp} {t : Token} (hl : Derives op.left ts e)
    (ht : BinaryOp.ofKind? t.kind = some op) (hr : Derives op.right us x) :
    Derives op.phrase (ts ++ t :: us) (.binary op e x) := by
  cases op with
  | power =>
    have hk : t.kind = .caret := by
      revert ht
      cases t.kind <;> simp [BinaryOp.ofKind?]
    exact power hl hk hr
  | add | subtract => exact link (c := .sum) hl (BinaryOp.mem_operators.2 rfl) ht hr
  | multiply | divide => exact link (c := .product) hl (BinaryOp.mem_operators.2 rfl) ht hr

/-- **A phrase is also a phrase of each kind that binds less tightly.** -/
theorem loosen {p q : Phrase} (h : Derives p ts e) (hq : q.precedence ≤ p.precedence) :
    Derives q ts e := by
  have hsum : Derives (.chain .product) ts e → Derives (.chain .sum) ts e := first (c := .sum)
  have hproduct : Derives .power ts e → Derives (.chain .product) ts e := first (c := .product)
  match p, q, hq with
  | .factor, .factor, _ | .power, .power, _ => exact h
  | .chain .sum, .chain .sum, _ | .chain .product, .chain .product, _ => exact h
  | .factor, .power, _ => exact base h
  | .factor, .chain .product, _ => exact hproduct (base h)
  | .factor, .chain .sum, _ => exact hsum (hproduct (base h))
  | .power, .chain .product, _ => exact hproduct h
  | .power, .chain .sum, _ => exact hsum (hproduct h)
  | .chain .product, .chain .sum, _ => exact hsum h

end Derives

end Reckon
