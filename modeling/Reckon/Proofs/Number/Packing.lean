/-
  The bits of doubles.

  * `unpack_eq`: doubles are worked with as their data;
  * `IsDouble` says which magnitudes are those of doubles; `isDouble_ofFloat`: the
    datum of a finite double is one, and `unpack_pack`: it is packed without loss;
  * `Unsigned x`: the double `x` is a number and has no sign; `Rounds.unsigned`: so
    is what a number that is not negative is rounded to.
-/
import Mathlib
import Reckon.Decimal.Magnitude
import Reckon.Proofs.Number.Rounding

namespace Reckon.Double

open Float.Model Float.Model.UnpackedFloat Decimal

variable {m : ℕ} {x : Float} {d : Magnitude}

/-- The magnitudes of doubles: at most fifty-three bits, and no less unless the exponent
    is the least one. -/
structure IsDouble (d : Magnitude) : Prop where
  lt : d.significand < 2 ^ 53
  least : -1074 ≤ d.exponent
  greatest : d.exponent ≤ 971
  full : d.exponent = -1074 ∨ 2 ^ 52 ≤ d.significand

theorem log2_add_one_eq (hm : m < 2 ^ 53) : m.log2 + 1 = 53 ↔ 2 ^ 52 ≤ m := by
  rcases Nat.eq_zero_or_pos m with rfl | hpos
  · simp
  · rw [← Nat.le_log2 hpos.ne']
    have := (Nat.log2_lt hpos.ne').2 hm
    omega

/-- How a finite double is packed: its first bit is left out unless the exponent is the
    least one, and what is too great becomes infinite. -/
theorem pack_finite (h0 : 0 < m) (hm : m < 2 ^ 53) (s : UnpackedFloat.Sign) (e : ℤ) :
    UnpackedFloat.pack Format.binary64 (.finite s m e h0) =
      if 972 ≤ e then packedInfinity Format.binary64 s
      else if 2 ^ 52 ≤ m then
        packComponents Format.binary64 s (BitVec.ofNat 11 (e + 1075).toNat) (BitVec.ofNat 52 m)
      else packComponents Format.binary64 s 0#11 (BitVec.ofNat 52 m) := by
  have hbiased : (e + Format.binary64.exponentBias + Format.binary64.mantissaBitsWithoutImplicit)
      = e + 1075 := by
    change e + (1023 : ℕ) + (52 : ℕ) = _
    omega
  have hbits : m.log2 + 1 = Format.binary64.mantissaBits ↔ 2 ^ 52 ≤ m := log2_add_one_eq hm
  have hgreat : 2 ^ Format.binary64.exponentBits ≤ (e + 1075).toNat + 1 ↔ 972 ≤ e := by
    change 2048 ≤ _ ↔ _
    omega
  rw [UnpackedFloat.pack]
  simp only [hbiased, hgreat, hbits]

/-! ## Data -/

/-- **The datum of a double is a magnitude of a double.** -/
theorem isDouble_ofFloat {negative : Bool} (h : Datum.ofFloat x = .finite negative d) :
    IsDouble d := by
  have hlt := x.toBits.toNat_lt
  unfold Datum.ofFloat at h
  dsimp only [hiddenBit] at h
  split at h
  · split at h <;> cases h
  split at h
  · cases h
    constructor <;> dsimp only <;> omega
  · cases h
    constructor <;> dsimp only <;> omega

/-! ## Unpacking -/

theorem toNat_unpackExponent (b : BitVec 64) :
    (@unpackExponent Format.binary64 b).toNat = b.toNat / 2 ^ 52 % 2 ^ 11 := by
  rw [unpackExponent, BitVec.toNat_cast]
  change (BitVec.extractLsb 62 52 b).toNat = _
  rw [BitVec.extractLsb_toNat, Nat.shiftRight_eq_div_pow]

theorem toNat_unpackMantissa (b : BitVec 64) :
    (@unpackMantissa Format.binary64 b).toNat = b.toNat % 2 ^ 52 := by
  rw [unpackMantissa, BitVec.toNat_cast]
  change (BitVec.extractLsb 51 0 b).toNat = _
  rw [BitVec.extractLsb_toNat, Nat.shiftRight_zero]

theorem toNat_unpackSign (b : BitVec 64) :
    (@unpackSign Format.binary64 b).toNat = b.toNat / 2 ^ 63 := by
  rw [unpackSign, BitVec.toNat_cast]
  change (BitVec.extractLsb 63 63 b).toNat = _
  rw [BitVec.extractLsb_toNat, Nat.shiftRight_eq_div_pow]
  exact Nat.mod_eq_of_lt (by have := b.isLt; omega)

/-- The sign of a double. -/
def signOf (negative : Bool) : UnpackedFloat.Sign := if negative then .negative else .positive

/-- A datum without its redundant forms, as doubles are worked with. -/
def unpacked : Datum → UnpackedFloat
  | .nan => .notANumber
  | .infinite negative => .infinity (signOf negative)
  | .finite negative d =>
    if h : d.significand = 0 then .zero (signOf negative)
    else .finite (signOf negative) d.significand d.exponent (Nat.pos_of_ne_zero h)

section

variable (x : Float)

theorem unpackExponent_eq_ofNat_iff {k : ℕ} (hk : k < 2048) :
    @unpackExponent Format.binary64 x.toBits.toBitVec = BitVec.ofNat 11 k ↔
      x.toBits.toNat / hiddenBit % 2048 = k := by
  rw [← BitVec.toNat_inj, toNat_unpackExponent, BitVec.toNat_ofNat]
  change _ ↔ x.toBits.toBitVec.toNat / 2 ^ 52 % 2 ^ 11 = k
  rw [show k % 2 ^ Format.binary64.exponentBits = k from Nat.mod_eq_of_lt hk]

theorem unpackMantissa_eq_zero_iff :
    @unpackMantissa Format.binary64 x.toBits.toBitVec = 0#52 ↔
      x.toBits.toNat % hiddenBit = 0 := by
  rw [← BitVec.toNat_inj, toNat_unpackMantissa]
  rfl

theorem ofBitVec_unpackSign :
    UnpackedFloat.Sign.ofBitVec (@unpackSign Format.binary64 x.toBits.toBitVec) =
      signOf (x.toBits.toNat / (2048 * hiddenBit) == 1) := by
  have hlt := x.toBits.toNat_lt
  have hbit : @unpackSign Format.binary64 x.toBits.toBitVec = 0#1 ↔
      x.toBits.toNat / (2048 * hiddenBit) = 0 := by
    rw [← BitVec.toNat_inj, toNat_unpackSign]
    rfl
  have hone : x.toBits.toNat / (2048 * hiddenBit) = 0 ∨
      x.toBits.toNat / (2048 * hiddenBit) = 1 := by
    dsimp only [hiddenBit]
    omega
  rw [UnpackedFloat.Sign.ofBitVec]
  rcases hone with h | h
  · rw [if_pos (hbit.2 h), h]
    rfl
  · rw [if_neg (fun h0 => by rw [hbit.1 h0] at h; cases h), h]
    rfl

end

/-- **Doubles are worked with as their data.** -/
theorem unpack_eq (x : Float) : x.toModel.unpack = unpacked (Datum.ofFloat x) := by
  have hones : @unpackExponent Format.binary64 x.toBits.toBitVec = -1#11 ↔ _ :=
    unpackExponent_eq_ofNat_iff x (k := 2047) (by decide)
  have hzero := unpackExponent_eq_ofNat_iff x (k := 0) (by decide)
  have hfraction := unpackMantissa_eq_zero_iff x
  have hsign := ofBitVec_unpackSign x
  change UnpackedFloat.unpack Format.binary64 x.toBits.toBitVec = _
  unfold UnpackedFloat.unpack Datum.ofFloat
  dsimp only
  rw [hsign]
  by_cases h2047 : x.toBits.toNat / hiddenBit % 2048 = 2047
  · rw [if_pos h2047, if_pos (hones.2 h2047)]
    by_cases hm : x.toBits.toNat % hiddenBit = 0
    · rw [if_pos hm, if_pos (hfraction.2 hm)]
      rfl
    · rw [if_neg hm, if_neg (mt hfraction.1 hm)]
      rfl
  · rw [if_neg h2047, if_neg (mt hones.1 h2047)]
    by_cases h0 : x.toBits.toNat / hiddenBit % 2048 = 0
    · rw [if_pos h0, if_pos (hzero.2 h0), unpacked]
      dsimp only
      by_cases hm : x.toBits.toNat % hiddenBit = 0
      · rw [dif_pos hm, dif_pos (hfraction.2 hm)]
      · rw [dif_neg hm, dif_neg (mt hfraction.1 hm)]
        simp only [finite.injEq, true_and, hzero.2 h0]
        exact ⟨toNat_unpackMantissa _, rfl⟩
    · rw [if_neg h0, if_neg (mt hzero.1 h0), unpacked, dif_neg (by dsimp only [hiddenBit]; omega)]
      have hlead : (1#1 ++ @unpackMantissa Format.binary64 x.toBits.toBitVec).toNat =
          hiddenBit + x.toBits.toNat % hiddenBit := by
        have hlt := (@unpackMantissa Format.binary64 x.toBits.toBitVec).isLt
        rw [BitVec.toNat_append, ← Nat.shiftLeft_add_eq_or_of_lt hlt, toNat_unpackMantissa]
        rfl
      have hexp : ((@unpackExponent Format.binary64 x.toBits.toBitVec).toNat : ℤ) -
          ((Format.binary64.exponentBias : ℤ) + (52 : ℕ)) =
          (x.toBits.toNat / hiddenBit % 2048 : ℕ) - 1075 := by
        rw [toNat_unpackExponent]
        rfl
      simp only [finite.injEq, true_and]
      exact ⟨hlead, hexp⟩

theorem unpack_of_ofFloat (h : Datum.ofFloat x = .finite false d) (h0 : 0 < d.significand) :
    x.toModel.unpack = .finite .positive d.significand d.exponent h0 := by
  rw [unpack_eq, h, unpacked, dif_neg h0.ne']
  rfl

/-- **A double is packed from its datum.** -/
theorem ofModel_pack_eq (h : Datum.ofFloat x = .finite false d) (h0 : 0 < d.significand) :
    Float.ofModel (Float.Model.pack (.finite .positive d.significand d.exponent h0)) = x := by
  rw [← unpack_of_ofFloat h h0]
  exact Float.ofBits_toBits x

theorem unpack_packComponents {field : BitVec 11} (hones : field ≠ -1#11) (hzero : field ≠ 0#11)
    (s : UnpackedFloat.Sign) (fraction : BitVec 52) :
    UnpackedFloat.unpack Format.binary64 (packComponents Format.binary64 s field fraction) =
      .finite s (2 ^ 52 + fraction.toNat) ((field.toNat : ℤ) - 1075) (by positivity) := by
  have hlead : (1#1 ++ fraction).toNat = 2 ^ 52 + fraction.toNat := by
    rw [BitVec.toNat_append, ← Nat.shiftLeft_add_eq_or_of_lt fraction.isLt]
    rfl
  unfold UnpackedFloat.unpack
  simp only [unpackExponent_packComponents, unpackMantissa_packComponents,
    unpackSign_packComponents, UnpackedFloat.Sign.ofBitVec_toBitVec]
  rw [if_neg hones, if_neg hzero]
  simp only [finite.injEq, true_and]
  exact ⟨hlead, rfl⟩

theorem unpack_packComponents_zero (s : UnpackedFloat.Sign) {fraction : BitVec 52}
    (h0 : 0 < fraction.toNat) :
    UnpackedFloat.unpack Format.binary64 (packComponents Format.binary64 s 0#11 fraction) =
      .finite s fraction.toNat (-1074) h0 := by
  have hne : fraction ≠ 0#52 := by
    rintro rfl
    exact absurd h0 (by decide)
  unfold UnpackedFloat.unpack
  simp only [unpackExponent_packComponents, unpackMantissa_packComponents,
    unpackSign_packComponents, UnpackedFloat.Sign.ofBitVec_toBitVec]
  rw [if_neg (by decide), if_pos trivial, dif_neg hne]
  rfl

/-- **A magnitude of a double is packed without loss.** -/
theorem unpack_pack (hd : IsDouble d) (h0 : 0 < d.significand) :
    (Float.Model.pack (.finite .positive d.significand d.exponent h0)).unpack =
      .finite .positive d.significand d.exponent h0 := by
  obtain ⟨hlt, hleast, hgreatest, hfull⟩ := hd
  change UnpackedFloat.unpack Format.binary64 (UnpackedFloat.pack Format.binary64 _) = _
  rw [pack_finite h0 hlt, if_neg (by omega)]
  split
  · next h =>
    have hfield : (BitVec.ofNat 11 (d.exponent + 1075).toNat).toNat =
        (d.exponent + 1075).toNat := by
      rw [BitVec.toNat_ofNat]
      exact Nat.mod_eq_of_lt (by omega)
    have hfraction : (BitVec.ofNat 52 d.significand).toNat = d.significand - 2 ^ 52 := by
      rw [BitVec.toNat_ofNat]
      omega
    rw [unpack_packComponents]
    · simp only [finite.injEq, true_and]
      rw [hfield, hfraction]
      constructor <;> omega
    · intro hones
      rw [hones] at hfield
      change 2047 = _ at hfield
      omega
    · intro hzero
      rw [hzero] at hfield
      change 0 = _ at hfield
      omega
  · next h =>
    have hfraction : (BitVec.ofNat 52 d.significand).toNat = d.significand := by
      rw [BitVec.toNat_ofNat]
      exact Nat.mod_eq_of_lt (Nat.not_le.1 h)
    rw [unpack_packComponents_zero _ (by rw [hfraction]; exact h0)]
    simp only [finite.injEq, true_and]
    exact ⟨hfraction, by omega⟩

/-! ## Doubles that are not negative -/

/-- A double is a number, and has no sign. -/
structure Unsigned (x : Float) : Prop where
  isNaN_eq : x.isNaN = false
  lt : x.toBits.toNat < 2 ^ 63

/-- What a double without sign stands for. -/
theorem ofFloat_of_lt (hlt : x.toBits.toNat < 2 ^ 63) : Datum.ofFloat x = .nan ∨
    Datum.ofFloat x = .infinite false ∨ ∃ d, Datum.ofFloat x = .finite false d := by
  have hsign : (x.toBits.toNat / (2048 * hiddenBit) == 1) = false := by
    rw [show 2048 * hiddenBit = 2 ^ 63 from rfl, Nat.div_eq_of_lt hlt]
    rfl
  unfold Datum.ofFloat
  dsimp only
  rw [hsign]
  split
  · split
    · exact Or.inr (Or.inl rfl)
    · exact Or.inl rfl
  split <;> exact Or.inr (Or.inr ⟨_, rfl⟩)

/-- A finite double without sign has a magnitude. -/
theorem exists_ofFloat (hfin : x.isFinite = true) (hlt : x.toBits.toNat < 2 ^ 63) :
    ∃ d, Datum.ofFloat x = .finite false d := by
  have hunpack : x.toModel.unpack.isFinite = true := hfin
  rw [unpack_eq] at hunpack
  rcases ofFloat_of_lt hlt with h | h | h
  · rw [h] at hunpack
    cases hunpack
  · rw [h] at hunpack
    cases hunpack
  · exact h

/-- The fields of a double, of which no number has those of what is none. -/
theorem exists_packComponents (h0 : 0 < m) (hm : m < 2 ^ 53) (s : UnpackedFloat.Sign) (e : ℤ) :
    ∃ (field : BitVec 11) (fraction : BitVec 52),
      UnpackedFloat.pack Format.binary64 (.finite s m e h0) =
        packComponents Format.binary64 s field fraction ∧
        (field.toNat = 2047 → fraction.toNat = 0) := by
  rw [pack_finite h0 hm]
  split
  · exact ⟨-1#11, 0#52, rfl, fun _ => rfl⟩
  split
  · refine ⟨_, _, rfl, fun h => ?_⟩
    rw [BitVec.toNat_ofNat] at h
    omega
  · exact ⟨_, _, rfl, fun h => by cases h⟩

/-- A rounded number that is not negative is a number and has no sign. -/
theorem Rounds.unsigned {q : ℚ} {f : UnpackedFloat} (h : Rounds q f) :
    Unsigned (Float.ofModel (Float.Model.pack f)) := by
  obtain ⟨field, fraction, hpack, hnan⟩ : ∃ (field : BitVec 11) (fraction : BitVec 52),
      UnpackedFloat.pack Format.binary64 f =
        packComponents Format.binary64 .positive field fraction ∧
        (field.toNat = 2047 → fraction.toNat = 0) := by
    obtain ⟨r, t, ht, hr, rfl⟩ := h
    unfold carried
    split
    · exact ⟨0#11, 0#52, rfl, fun _ => rfl⟩
    split
    · next hlt => exact exists_packComponents _ hlt _ _
    · exact exists_packComponents _ (by norm_num) _ _
  constructor
  · have hvalid : Format.binary64.Valid (UnpackedFloat.pack Format.binary64 f) := valid_pack
    change (UnpackedFloat.unpack Format.binary64 (UnpackedFloat.pack Format.binary64 f)).isNaN = _
    rw [Bool.eq_false_iff, Ne, isNaN_unpack_iff_of_valid hvalid, hpack]
    intro h
    have hfield : field = -1#11 := by
      have hf := congrArg unpackExponent h
      rwa [packedNaN, unpackExponent_packComponents, unpackExponent_packComponents] at hf
    have hfraction : fraction = 1#52 <<< 51 := by
      have hm := congrArg unpackMantissa h
      rwa [packedNaN, unpackMantissa_packComponents, unpackMantissa_packComponents] at hm
    subst hfield hfraction
    exact absurd (hnan rfl) (by decide)
  · have hsign : @unpackSign Format.binary64 (UnpackedFloat.pack Format.binary64 f) = 0#1 := by
      rw [hpack]
      exact unpackSign_packComponents _ _ _
    have hdiv := toNat_unpackSign (UnpackedFloat.pack Format.binary64 f)
    rw [hsign] at hdiv
    change (UnpackedFloat.pack Format.binary64 f).toNat < 2 ^ 63
    exact (Nat.div_eq_zero_iff_lt (by decide)).1 hdiv.symm

theorem Unsigned.zero_le (h : Unsigned x) : 0 ≤ x := by
  have hnan : x.toModel.unpack.isNaN = false := h.isNaN_eq
  have hle : UnpackedFloat.le (.zero .positive) x.toModel.unpack = true → 0 ≤ x :=
    fun h => decide_eq_true (p := (0 : Float).toModel ≤ x.toModel) h
  refine hle ?_
  rw [unpack_eq] at hnan ⊢
  rcases ofFloat_of_lt h.lt with h | h | ⟨d, h⟩
  · rw [h] at hnan
    cases hnan
  · rw [h]
    rfl
  · rw [h, unpacked]
    split <;> rfl

end Reckon.Double
