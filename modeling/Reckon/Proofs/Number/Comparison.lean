/-
  Comparing a double with zero.

  * `Datum.sign?`: on which side of zero a datum lies; what is not a number lies on none;
  * `beq_zero_iff`, `lt_zero_iff` and `le_zero_iff`: so the comparisons of doubles with
    zero say, and neither sign of zero makes a difference;
  * `ofFloat_of_isNaN`: a double that is not a number has no other datum.
-/
import Reckon.Proofs.Number.Packing

namespace Reckon

open Decimal Double

/-- The side of zero on which a datum lies: below, at, or above it. What is not a number
    lies on none. -/
def Decimal.Datum.sign? : Datum → Option Ordering
  | .nan => none
  | .infinite negative => some (if negative then .lt else .gt)
  | .finite negative d =>
    some (if d.significand = 0 then .eq else if negative then .lt else .gt)

namespace Double

variable {x : Float}

theorem unpack_zero : (0 : Float).toModel.unpack = .zero .positive := by
  have h : Datum.ofFloat 0 = .finite false ⟨0, -1074⟩ := by decide +kernel
  rw [unpack_eq, h]
  rfl

/-- **A double compares with zero as its datum does.** -/
theorem compare_zero (x : Float) :
    x.toModel.unpack.compare (0 : Float).toModel.unpack = (Datum.ofFloat x).sign? := by
  rw [unpack_zero, unpack_eq]
  cases Datum.ofFloat x with
  | nan => rfl
  | infinite negative => cases negative <;> rfl
  | finite negative d =>
    by_cases h : d.significand = 0
    · rw [unpacked, dif_pos h, Datum.sign?, if_pos h]
      rfl
    · rw [unpacked, dif_neg h, Datum.sign?, if_neg h]
      cases negative <;> rfl

theorem beq_zero_iff : (x == 0) = true ↔ (Datum.ofFloat x).sign? = some .eq := by
  rw [← compare_zero]
  change (x.toModel.unpack.compare _ == some .eq) = true ↔ _
  exact beq_iff_eq

theorem lt_zero_iff : x < 0 ↔ (Datum.ofFloat x).sign? = some .lt := by
  rw [← compare_zero]
  change decide (x.toModel < (0 : Float).toModel) = true ↔ _
  rw [decide_eq_true_iff]
  change (x.toModel.unpack.compare _ == some .lt) = true ↔ _
  exact beq_iff_eq

theorem le_zero_iff :
    x ≤ 0 ↔ (Datum.ofFloat x).sign? = some .lt ∨ (Datum.ofFloat x).sign? = some .eq := by
  rw [← compare_zero]
  change decide (x.toModel ≤ (0 : Float).toModel) = true ↔ _
  rw [decide_eq_true_iff]
  change (x.toModel.unpack.compare _).any (·.isLE) = true ↔ _
  cases x.toModel.unpack.compare (0 : Float).toModel.unpack with
  | none => simp
  | some o => cases o <;> simp

theorem ofFloat_of_isNaN (h : x.isNaN = true) : Datum.ofFloat x = .nan := by
  change x.toModel.unpack.isNaN = true at h
  rw [unpack_eq] at h
  cases hd : Datum.ofFloat x with
  | nan => rfl
  | infinite negative =>
    rw [hd] at h
    cases h
  | finite negative d =>
    rw [hd, unpacked] at h
    split at h <;> cases h

end Double

end Reckon
