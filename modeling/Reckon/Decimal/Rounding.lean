/-
  Rounding a quotient of natural numbers to a natural number.

  * `roundDiv` rounds to the nearest, and an exact half as its `Tie` says;
  * `roundDiv_of_dvd`: a quotient without remainder is left alone;
  * `roundDiv_near`: the result is at most half a unit away.
-/
namespace Reckon.Decimal

/-- Where a value half way between two neighbours goes. -/
inductive Tie where
  /-- To the even neighbour. -/
  | toEven
  /-- To the greater neighbour. -/
  | up
deriving DecidableEq, Repr

/-- The natural number nearest to `num / den`. -/
def roundDiv (num den : Nat) (tie : Tie) : Nat :=
  let below := num / den
  let twice := 2 * (num % den)
  if twice < den then below
  else if den < twice then below + 1
  else match tie with
    | .toEven => below + below % 2
    | .up => below + 1

theorem roundDiv_of_dvd {num den : Nat} (hd : 0 < den) (h : den ∣ num) (tie : Tie) :
    roundDiv num den tie = num / den := by
  simp [roundDiv, Nat.mod_eq_zero_of_dvd h, hd]

/-- **The rounded quotient is at most half a unit away from the exact one.** -/
theorem roundDiv_near (num : Nat) {den : Nat} (hd : 0 < den) (tie : Tie) :
    2 * num ≤ 2 * (roundDiv num den tie * den) + den ∧
      2 * (roundDiv num den tie * den) ≤ 2 * num + den := by
  have hdiv := Nat.div_add_mod num den
  have hcomm : den * (num / den) = num / den * den := Nat.mul_comm ..
  have hnext : (num / den + 1) * den = num / den * den + den := Nat.succ_mul ..
  have hlt := Nat.mod_lt num hd
  unfold roundDiv
  dsimp only
  split
  · omega
  split
  · omega
  cases tie with
  | up => dsimp only; omega
  | toEven =>
    dsimp only
    rcases Nat.mod_two_eq_zero_or_one (num / den) with h | h <;> rw [h]
    · rw [Nat.add_zero]; omega
    · omega

end Reckon.Decimal
