/-
  What a limit on the depth accepts.

  * `Derivation.operandCosts` are the costs of the operands of a chain, and
    `Derivation.isGreatest_cost` is what the chain costs for them;
  * `result_run_some`: reading under a limit gives the expressions of the
    derivations that cost no more;
  * `isLeast_cost`: the cost of a derivation is the least limit under which it is
    read.
-/
import Mathlib.Order.Bounds.Defs
import Reckon.Proofs.Recognition
import Reckon.Proofs.Threshold

namespace Reckon

/-! ## The cost of a chain -/

namespace Derivation

/-- What the operands of a chain cost, from left to right. -/
def operandCosts : {p : Phrase} → Derivation p → List Nat
  | _, first _ d => [d.cost]
  | _, link _ front _ _ _ _ d => front.operandCosts ++ [d.cost]
  | _, _ => []

theorem length_operandCosts : ∀ {c : Chain} (d : Derivation (.chain c)),
    d.operandCosts.length = d.links + 1
  | _, first _ _ => rfl
  | _, link _ front _ _ _ _ _ => by
    rw [operandCosts, List.length_append, length_operandCosts front]
    rfl

/-- **A chain costs what the most expensive of its operands costs,** counting one
    more for each operand in front of it. -/
theorem isGreatest_cost : ∀ {c : Chain} (d : Derivation (.chain c)),
    IsGreatest {n | ∃ i k, d.operandCosts[i]? = some k ∧ n = i + k} d.cost
  | _, first c d => by
    refine ⟨⟨0, d.cost, rfl, (Nat.zero_add _).symm⟩, ?_⟩
    rintro n ⟨i, k, hk, rfl⟩
    cases i with
    | zero =>
      cases hk
      exact Nat.le_of_eq (Nat.zero_add _)
    | succ i => cases hk
  | _, link c front op t hop ht d => by
    obtain ⟨⟨i, k, hk, hi⟩, hub⟩ := isGreatest_cost front
    have hlen := length_operandCosts front
    have hlast : (front.operandCosts ++ [d.cost])[front.links + 1]? = some d.cost := by
      rw [← hlen, List.getElem?_concat_length]
    constructor
    · rcases Nat.le_total front.cost (front.links + 1 + d.cost) with hle | hle
      · exact ⟨front.links + 1, d.cost, hlast, Nat.max_eq_right hle⟩
      · have hlt : i < front.operandCosts.length := (List.getElem?_eq_some_iff.1 hk).1
        refine ⟨i, k, ?_, (Nat.max_eq_left hle).trans hi⟩
        rw [operandCosts, List.getElem?_append_left hlt, hk]
    · rintro n ⟨j, l, hl, rfl⟩
      rw [operandCosts] at hl
      rcases Nat.lt_or_ge j front.operandCosts.length with hlt | hge
      · rw [List.getElem?_append_left hlt] at hl
        exact Nat.le_trans (hub ⟨j, l, hl, rfl⟩) (Nat.le_max_left _ _)
      · -- The new operand is the only one that the front does not have.
        obtain rfl : j = front.links + 1 := by
          have hlt := (List.getElem?_eq_some_iff.1 hl).1
          rw [List.length_append, List.length_singleton] at hlt
          omega
        rw [hlast] at hl
        cases hl
        exact Nat.le_max_right _ _

end Derivation

/-! ## Reading under a limit -/

namespace Reader

variable {stop : Span} {ts : List Token} {e : Expr}

theorem due_of_finish {s : State} (h : s.finish stop = .ok e) : s.due = 0 := by
  obtain ⟨mode, σ⟩ := s
  cases mode with
  | complete v => rfl
  | factor | argument | name _ => cases h

/-- Reading the tokens of a derivation gets as deep as the derivation costs. -/
theorem peak_tokens (d : Derivation (.chain .sum)) : State.initial.peak d.tokens = d.cost := by
  obtain ⟨s, hs, he⟩ := exists_leads d (.point 0)
  have hp := hs.peak []
  rw [List.append_nil, State.peak, due_of_finish he, Nat.max_zero] at hp
  exact hp

/-- **Under a limit, reading gives the expressions of the derivations that cost no
    more.** -/
theorem result_run_some (L : Nat) (stop : Span) (ts : List Token) (e : Expr) :
    (State.initial.run (some L) stop ts).result = .ok e ↔
      ∃ d : Derivation (.chain .sum), d.tokens = ts ∧ d.tree = e ∧ d.cost ≤ L := by
  constructor
  · intro h
    rcases Nat.lt_or_ge L (State.initial.peak ts) with hlt | hle
    · rw [State.result_run_of_lt_peak stop (fun _ => Nat.zero_le L) hlt] at h
      cases h
    · rw [State.run_eq_of_within stop (within_some.2 hle)] at h
      obtain ⟨d, rfl, hd⟩ := (result_run_initial stop ts e).1 h
      rw [peak_tokens] at hle
      exact ⟨d, rfl, hd, hle⟩
  · rintro ⟨d, rfl, hd, hle⟩
    rw [← peak_tokens] at hle
    rw [State.run_eq_of_within stop (within_some.2 hle)]
    exact (result_run_initial stop _ e).2 ⟨d, rfl, hd⟩

/-- Under any limit, what is read is derived. -/
theorem derives_of_result_run {limit : Option Nat}
    (h : (State.initial.run limit stop ts).result = .ok e) : Derives (.chain .sum) ts e := by
  cases limit with
  | none => exact (result_run_initial stop ts e).1 h
  | some L =>
    obtain ⟨d, hd, he, -⟩ := (result_run_some L stop ts e).1 h
    exact ⟨d, hd, he⟩

/-- The cost of a derivation is the threshold of its tokens. -/
theorem threshold_cost {d : Derivation (.chain .sum)}
    (hd : d.tokens = ts.takeWhile fun t => !t.isFinish) : Threshold ts d.cost := by
  have hpeak := peak_tokens d
  rw [hd] at hpeak
  rw [← hpeak]
  exact threshold_peak ts

/-- **The least limit under which tokens are read is the cost of their derivation.**
    Smaller limits are reported, and from there on the expression is the one without
    a limit. Of the operands of a chain, each costs as much as there are operands in
    front of it besides its own cost, and the most expensive one decides. -/
theorem isLeast_cost (ts : List Token) (d : Derivation (.chain .sum))
    (hd : d.tokens = ts.takeWhile fun t => !t.isFinish) :
    IsLeast {L | ∃ e, (ofTokens ts (some L)).read.result = .ok e} d.cost ∧
      (∀ L < d.cost, ∃ place,
        (ofTokens ts (some L)).read.result = .error ⟨.nestingTooDeep L, place⟩) ∧
      (∀ L, d.cost ≤ L →
        (ofTokens ts (some L)).read.result = (ofTokens ts none).read.result) ∧
      (ofTokens ts none).read.result = .ok d.tree ∧
      ∀ (c : Chain) (x : Derivation (.chain c)),
        IsGreatest {n | ∃ i k, x.operandCosts[i]? = some k ∧ n = i + k} x.cost := by
  have hth := threshold_cost hd
  have hnone : (ofTokens ts none).read.result = .ok d.tree :=
    (result_run_initial _ _ _).2 ⟨d, hd, rfl⟩
  have hbelow : ∀ L < d.cost, ∃ place,
      (ofTokens ts (some L)).read.result = .error ⟨.nestingTooDeep L, place⟩ :=
    fun L hL => ⟨_, hth.result_of_lt L hL⟩
  have habove : ∀ L, d.cost ≤ L →
      (ofTokens ts (some L)).read.result = (ofTokens ts none).read.result := by
    intro L hL
    rw [hth.read_of_le L hL]
  refine ⟨⟨⟨d.tree, ?_⟩, ?_⟩, hbelow, habove, hnone, fun _ => Derivation.isGreatest_cost⟩
  · rw [habove d.cost (Nat.le_refl _), hnone]
  · rintro L ⟨e, he⟩
    refine Nat.le_of_not_lt fun hL => ?_
    obtain ⟨place, herror⟩ := hbelow L hL
    rw [he] at herror
    cases herror

/-- The difference `9-8-(7^6)`, whose last operand is the most expensive one. -/
def groupedPower : Derivation (.chain .sum) :=
  let number (value : Float) (text : String) (n : Nat) : Derivation .factor :=
    .number ⟨.number, text, ⟨n, n + 1⟩, value⟩ rfl
  let minus (n : Nat) : Token := ⟨.minus, "-", ⟨n, n + 1⟩, 0⟩
  let power : Derivation .power :=
    .power (number 7 "7" 5) ⟨.caret, "^", ⟨6, 7⟩, 0⟩ rfl (.base (number 6 "6" 7))
  let group : Derivation .factor :=
    .group ⟨.leftParen, "(", ⟨4, 5⟩, 0⟩ ⟨.rightParen, ")", ⟨8, 9⟩, 0⟩ rfl rfl
      (.first .sum (.first .product power))
  let front : Derivation (.chain .sum) :=
    .link .sum (.first .sum (.first .product (.base (number 9 "9" 0)))) .subtract (minus 1)
      (by decide) rfl (.first .product (.base (number 8 "8" 2)))
  .link .sum front .subtract (minus 3) (by decide) rfl (.first .product (.base group))

theorem isLeast_cost_groupedPower :
    groupedPower.tokens =
        ((groupedPower.tokens ++ [Token.finish 9]).takeWhile fun t => !t.isFinish) ∧
      IsLeast {L | ∃ e, (ofTokens (groupedPower.tokens ++ [Token.finish 9]) (some L)).read.result =
        .ok e} 4 := by
  have htokens : groupedPower.tokens =
      ((groupedPower.tokens ++ [Token.finish 9]).takeWhile fun t => !t.isFinish) := rfl
  exact ⟨htokens, (isLeast_cost _ groupedPower htokens).1⟩

end Reader

end Reckon
