import Mathlib

/-!
# Rounding to binary64

What an operation on floats returns is the exact result, rounded and packed into 64 bits. Here it is
shown what that leaves of a number. A finite number comes out as a mantissa and an exponent in the one
form that can be packed (`Canonical`), and it does not become smaller than the power of two below it,
so it does not become zero unless it is smaller than every float (`roundWithAccuracy_eq`). Packing
and unpacking keep such a number, or make it infinite if it is too large (`unpack_pack`).
-/

namespace CodeAtlas.Binary64

open Float.Model Float.Model.UnpackedFloat

variable {s : Sign} {m : ℕ} {e : ℤ}

/-! ## The format -/

theorem targetExponent_eq (t : ℤ) : Format.binary64.targetExponent t = max (t - 53) (-1074) := by
  rw [Format.targetExponent]
  rfl

/-- A finite number as it is represented: with all digits, or with the least exponent. -/
structure Canonical (m : ℕ) (e : ℤ) : Prop where
  lt : m < 2 ^ 53
  le_exponent : -1074 ≤ e
  full_or_least : 2 ^ 52 ≤ m ∨ e = -1074

/-! ## Shifting -/

theorem mantissa_shiftRight (x : ExtendedMantissa) (k : ℕ) :
    (x >>> k).mantissa = x.mantissa / 2 ^ k := by
  induction k with
  | zero => exact (Nat.div_one _).symm
  | succ k ih =>
    have hstep : (x >>> (k + 1)).mantissa = (x >>> k).mantissa / 2 := rfl
    rw [hstep, ih, Nat.div_div_eq_div_mul, pow_succ]

theorem mantissa_ofMantissaAndAccuracy (m : ℕ) (accuracy : Accuracy) :
    (ExtendedMantissa.ofMantissaAndAccuracy m accuracy).mantissa = m := by
  cases accuracy with
  | exact => rfl
  | inexact o => cases o <;> rfl

theorem roundedMantissa_bounds (x : ExtendedMantissa) :
    x.mantissa ≤ x.roundedMantissa ∧ x.roundedMantissa ≤ x.mantissa + 1 := by
  obtain ⟨m, roundBit, stickyBit⟩ := x
  rw [ExtendedMantissa.roundedMantissa]
  cases roundBit <;> cases stickyBit <;>
    simp only [ExtendedMantissa.accuracy, Accuracy.roundToNearestEven] <;> omega

/-- Halving as often as it takes to come from one number of digits to another. -/
theorem log2_div_two_pow {k : ℕ} (hm : m ≠ 0) (hk : k ≤ m.log2) :
    m / 2 ^ k ≠ 0 ∧ (m / 2 ^ k).log2 = m.log2 - k := by
  have hlow : 2 ^ (m.log2 - k) ≤ m / 2 ^ k := by
    rw [Nat.le_div_iff_mul_le (Nat.two_pow_pos k), ← pow_add, Nat.sub_add_cancel hk]
    exact Nat.log2_self_le hm
  have hhigh : m / 2 ^ k < 2 ^ (m.log2 - k + 1) := by
    rw [Nat.div_lt_iff_lt_mul (Nat.two_pow_pos k), ← pow_add]
    have hexp : m.log2 - k + 1 + k = m.log2 + 1 := by omega
    rw [hexp]
    exact Nat.lt_log2_self
  have hne : m / 2 ^ k ≠ 0 := (Nat.two_pow_pos _).trans_le hlow |>.ne'
  exact ⟨hne, (Nat.log2_eq_iff hne).mpr ⟨hlow, hhigh⟩⟩

theorem log2_shiftLeft (hm : m ≠ 0) (k : ℕ) : (m <<< k).log2 = m.log2 + k := by
  have hne : m <<< k ≠ 0 := by
    rw [Nat.shiftLeft_eq]
    exact Nat.mul_ne_zero hm (Nat.two_pow_pos k).ne'
  rw [Nat.log2_eq_iff hne, Nat.shiftLeft_eq, Nat.add_right_comm, pow_add, pow_add]
  exact ⟨Nat.mul_le_mul_right _ (Nat.log2_self_le hm),
    Nat.mul_lt_mul_of_pos_right Nat.lt_log2_self (Nat.two_pow_pos k)⟩

/-- Where a number is not represented with too few digits, shifting it to its exponent drops the
digits that are too many. -/
theorem shiftToTargetExponent_eq (accuracy : Accuracy) (hdigits : 52 ≤ m.log2 ∨ e ≤ -1074) :
    ∃ k : ℕ, e + k = max (m.log2 + e - 52) (-1074) ∧
      (shiftToTargetExponent Format.binary64 m e accuracy).2 = e + k ∧
      (shiftToTargetExponent Format.binary64 m e accuracy).1.mantissa = m / 2 ^ k := by
  have htarget : Format.binary64.targetExponent (totalExponent m e)
      = max (m.log2 + e - 52) (-1074) := by
    rw [targetExponent_eq, totalExponent]
    congr 1
    omega
  refine ⟨(max (m.log2 + e - 52) (-1074) - e).toNat, by omega, ?_, ?_⟩
  · rw [shiftToTargetExponent, htarget, shiftToExponent]
  · rw [shiftToTargetExponent, htarget, shiftToExponent, mantissa_shiftRight,
      mantissa_ofMantissaAndAccuracy]

/-! ## Rounding -/

/-- The number of digits that are left, and the exponent, where the mantissa is rounded. -/
theorem exists_rounded (accuracy : Accuracy) (hm : m ≠ 0) (hdigits : 52 ≤ m.log2 ∨ e ≤ -1074)
    (hlow : -1074 ≤ m.log2 + e) :
    ∃ d r : ℕ, ∃ e' : ℤ, (shiftToTargetExponent Format.binary64 m e accuracy).2 = e' ∧
      (shiftToTargetExponent Format.binary64 m e accuracy).1.roundedMantissa = r ∧
      d + e' = m.log2 + e ∧ 2 ^ d ≤ r ∧ r ≤ 2 ^ (d + 1) ∧
      (d = 52 ∧ -1074 ≤ e' ∨ d ≤ 52 ∧ e' = -1074) := by
  obtain ⟨k, hk, hexponent, hmantissa⟩ := shiftToTargetExponent_eq accuracy hdigits
  obtain ⟨hne, hlog⟩ := log2_div_two_pow hm (k := k) (by omega)
  obtain ⟨hrlow, hrhigh⟩ :=
    roundedMantissa_bounds (shiftToTargetExponent Format.binary64 m e accuracy).1
  rw [hmantissa] at hrlow hrhigh
  refine ⟨m.log2 - k, _, e + k, hexponent, rfl, by omega, ?_, ?_, by omega⟩
  · exact hlog ▸ (Nat.log2_self_le hne).trans hrlow
  · exact hrhigh.trans (hlog ▸ Nat.lt_log2_self)

/-- **What rounding does to a number** that is neither too small nor represented with too few digits:
the result is finite and canonical, and as large, up to the next power of two. -/
theorem roundWithAccuracy_eq (s : Sign) (accuracy : Accuracy) (hm : m ≠ 0)
    (hdigits : 52 ≤ m.log2 ∨ e ≤ -1074) (hlow : -1074 ≤ m.log2 + e) :
    ∃ m' e' h, roundWithAccuracy Format.binary64 s m e accuracy = .finite s m' e' h ∧
      Canonical m' e' ∧ m.log2 + e ≤ m'.log2 + e' ∧ m'.log2 + e' ≤ m.log2 + e + 1 := by
  obtain ⟨d, r, e₁, hexponent, hrounded, hd, hrlow, hrhigh, hleft⟩ :=
    exists_rounded accuracy hm hdigits hlow
  have hr : r ≠ 0 := ((Nat.two_pow_pos d).trans_le hrlow).ne'
  have hrdigits : 52 ≤ r.log2 ∨ e₁ ≤ -1074 := by
    have hle := (Nat.le_log2 hr).mpr hrlow
    omega
  obtain ⟨k, hk, hexponent', hmantissa⟩ := shiftToTargetExponent_eq .exact hrdigits
  -- The mantissa has one digit too many only if it is a power of two, and then the digit is zero.
  obtain ⟨hpos, hcanonical, hsize⟩ : r / 2 ^ k ≠ 0 ∧ Canonical (r / 2 ^ k) (e₁ + k) ∧
      ((r / 2 ^ k).log2 = d ∧ k = 0 ∨ (r / 2 ^ k).log2 + k = d + 1) := by
    rcases hrhigh.lt_or_eq with hlt | rfl
    · have hlog : r.log2 = d := (Nat.log2_eq_iff hr).mpr ⟨hrlow, hlt⟩
      obtain rfl : k = 0 := by omega
      rw [pow_zero, Nat.div_one, Nat.cast_zero, add_zero]
      have hdigits : 2 ^ (d + 1) ≤ 2 ^ 53 := Nat.pow_le_pow_right two_pos (by omega)
      refine ⟨hr, ⟨hlt.trans_le hdigits, by omega, ?_⟩, Or.inl ⟨hlog, rfl⟩⟩
      rcases hleft with ⟨rfl, -⟩ | ⟨-, hleast⟩
      · exact Or.inl hrlow
      · exact Or.inr hleast
    · rw [Nat.log2_two_pow] at hk
      have hkle : k ≤ d + 1 := by omega
      rw [Nat.pow_div hkle two_pos]
      refine ⟨(Nat.two_pow_pos _).ne', ⟨?_, by omega, ?_⟩, Or.inr ?_⟩
      · exact Nat.pow_lt_pow_right one_lt_two (by omega)
      · rcases hleft with ⟨rfl, hge⟩ | ⟨hle, hleast⟩
        · exact Or.inl (Nat.pow_le_pow_right two_pos (by omega))
        · by_cases hk0 : k = 0
          · exact Or.inr (by omega)
          · exact Or.inl (Nat.pow_le_pow_right two_pos (by omega))
      · rw [Nat.log2_two_pow]
        omega
  refine ⟨r / 2 ^ k, e₁ + k, Nat.pos_of_ne_zero hpos, ?_, hcanonical, ?_, ?_⟩
  · rw [roundWithAccuracy]
    dsimp only
    simp only [hexponent, hrounded, hexponent', hmantissa]
    exact dif_neg hpos
  · omega
  · omega

theorem round_eq (s : Sign) (hm : m ≠ 0) (hlow : -1074 ≤ m.log2 + e) :
    ∃ m' e' h, UnpackedFloat.round Format.binary64 s m e = .finite s m' e' h ∧
      Canonical m' e' ∧ m.log2 + e ≤ m'.log2 + e' ∧ m'.log2 + e' ≤ m.log2 + e + 1 := by
  -- Digits are added until there are enough of them, which leaves the number as it is.
  obtain ⟨k, hk⟩ : ∃ k : ℕ, (e - Format.binary64.targetExponent (totalExponent m e)).toNat = k :=
    ⟨_, rfl⟩
  have hshift : m <<< k ≠ 0 := by
    rw [Nat.shiftLeft_eq]
    exact Nat.mul_ne_zero hm (Nat.two_pow_pos k).ne'
  have hlog : (m <<< k).log2 = m.log2 + k := log2_shiftLeft hm k
  have hdigits : 52 ≤ (m <<< k).log2 ∨ e - k ≤ -1074 := by
    rw [targetExponent_eq, totalExponent] at hk
    omega
  obtain ⟨m', e', h, heq, hcanonical, hle, hge⟩ :=
    roundWithAccuracy_eq s .exact hshift hdigits (by omega)
  refine ⟨m', e', h, ?_, hcanonical, by omega, by omega⟩
  rw [UnpackedFloat.round]
  simp only [decreaseExponent, hk]
  exact heq

theorem normalize_eq {mantissa : ℤ} (zeroSign : Sign) (hm : mantissa ≠ 0) (he : -1074 ≤ e) :
    ∃ s m e' h, UnpackedFloat.normalize Format.binary64 mantissa e zeroSign = .finite s m e' h ∧
      Canonical m e' ∧ (0 < mantissa → s = .positive) := by
  rcases lt_or_gt_of_ne hm with hneg | hpos
  · obtain ⟨m, e', h, heq, hcanonical, -⟩ := round_eq .negative (m := (-mantissa).toNat) (e := e)
      (by omega) (by omega)
    refine ⟨.negative, m, e', h, ?_, hcanonical, fun hpos ↦ absurd hpos hneg.not_gt⟩
    rw [UnpackedFloat.normalize, Int.compare_eq_lt.mpr hneg]
    exact heq
  · obtain ⟨m, e', h, heq, hcanonical, -⟩ := round_eq .positive (m := mantissa.toNat) (e := e)
      (by omega) (by omega)
    refine ⟨.positive, m, e', h, ?_, hcanonical, fun _ ↦ rfl⟩
    rw [UnpackedFloat.normalize, Int.compare_eq_gt.mpr hpos]
    exact heq

/-! ## Packing -/

theorem toNat_one_append (m : BitVec 52) : (1#1 ++ m).toNat = 2 ^ 52 + m.toNat := by
  rw [BitVec.toNat_append, ← Nat.shiftLeft_add_eq_or_of_lt m.isLt]
  rfl

/-- A number with these parts, as it is unpacked. -/
theorem unpack_packComponents (s : Sign) (e : BitVec 11) (m : BitVec 52) :
    UnpackedFloat.unpack Format.binary64 (packComponents Format.binary64 s e m)
      = if e = -1#11 then if m = 0#52 then .infinity s else .notANumber
        else if e = 0#11 then
          if h : m = 0#52 then .zero s
          else .finite s m.toNat (-1074) (Nat.pos_of_ne_zero fun h0 ↦ h (BitVec.eq_of_toNat_eq h0))
        else .finite s (2 ^ 52 + m.toNat) (e.toNat - 1075) (by omega) := by
  rw [UnpackedFloat.unpack]
  simp only [unpackMantissa_packComponents, unpackExponent_packComponents,
    unpackSign_packComponents, Sign.ofBitVec_toBitVec, toNat_one_append]
  split_ifs with hmax hinfinite hleast hzero
  · rfl
  · rfl
  · rfl
  · rw [hleast]
    rfl
  · rfl

/-- The exponents of finite numbers with all digits. -/
theorem toNat_exponent_iff {x : BitVec 11} :
    x ≠ -1#11 ∧ x ≠ 0#11 ↔ 1 ≤ x.toNat ∧ x.toNat ≤ 2046 := by
  bv_omega

/-- What is unpacked is canonical. -/
theorem canonical_of_unpack {v : Float.Model} {h : 0 < m} (hv : v.unpack = .finite s m e h) :
    Canonical m e ∧ e ≤ 971 := by
  have hbias : Format.binary64.exponentBias = 1023 := rfl
  rw [Float.Model.unpack, UnpackedFloat.unpack] at hv
  simp only [toNat_one_append, hbias] at hv
  split_ifs at hv with hmax hinfinite hleast hzero
  · obtain ⟨-, rfl, rfl⟩ := UnpackedFloat.finite.inj hv
    have hlt := (@unpackMantissa Format.binary64 v.toBits.toBitVec).isLt
    rw [hleast]
    exact ⟨⟨by omega, by decide, Or.inr rfl⟩, by decide⟩
  · obtain ⟨-, rfl, rfl⟩ := UnpackedFloat.finite.inj hv
    have hlt := (@unpackMantissa Format.binary64 v.toBits.toBitVec).isLt
    have hexponent := toNat_exponent_iff.mp ⟨hmax, hleast⟩
    exact ⟨⟨by omega, by omega, Or.inl (Nat.le_add_right _ _)⟩, by omega⟩

theorem unpack_pack (s : Sign) (h : 0 < m) (hc : Canonical m e) :
    (Float.Model.pack (.finite s m e h)).unpack
      = if e ≤ 971 then .finite s m e h else .infinity s := by
  have hbias : Format.binary64.exponentBias = 1023 := rfl
  have hunpack : (Float.Model.pack (.finite s m e h)).unpack = UnpackedFloat.unpack Format.binary64
    (UnpackedFloat.pack Format.binary64 (.finite s m e h)) := rfl
  obtain ⟨hlt, hge, hfull⟩ := hc
  rw [hunpack, UnpackedFloat.pack]
  simp only [hbias]
  split_ifs with hoverflow hle hdigits hle hle
  · omega
  · rw [packedInfinity, unpack_packComponents, if_pos rfl]
    exact if_pos rfl
  · -- All digits are there, and the first one is not stored.
    replace hdigits : m.log2 = 52 := Nat.succ.inj hdigits
    obtain ⟨hlow, -⟩ := (Nat.log2_eq_iff h.ne').mp hdigits
    have hexponent : (BitVec.ofNat 11 (e + (1023 : ℕ) + (52 : ℕ)).toNat).toNat = e + 1075 := by
      rw [BitVec.toNat_ofNat, Nat.mod_eq_of_lt (by omega)]
      omega
    have hmantissa : 2 ^ 52 + (BitVec.ofNat 52 m).toNat = m := by
      rw [BitVec.toNat_ofNat]
      omega
    obtain ⟨hmax, hleast⟩ : BitVec.ofNat 11 (e + (1023 : ℕ) + (52 : ℕ)).toNat ≠ -1#11 ∧
        BitVec.ofNat 11 (e + (1023 : ℕ) + (52 : ℕ)).toNat ≠ 0#11 :=
      toNat_exponent_iff.mpr (by omega)
    rw [unpack_packComponents, if_neg hmax, if_neg hleast, UnpackedFloat.finite.injEq]
    exact ⟨rfl, hmantissa, by rw [hexponent]; omega⟩
  · omega
  · -- There are fewer digits, so the exponent is the least one.
    have hsmall : m < 2 ^ 52 := by
      rw [← Nat.log2_lt h.ne']
      have hbits : m.log2 + 1 ≠ 53 := hdigits
      have hlog := (Nat.log2_lt h.ne').mpr hlt
      omega
    have hmantissa : (BitVec.ofNat 52 m).toNat = m := by
      rw [BitVec.toNat_ofNat, Nat.mod_eq_of_lt hsmall]
    have hzero : BitVec.ofNat 52 m ≠ 0#52 := by
      intro h0
      rw [h0] at hmantissa
      exact h.ne hmantissa
    rw [unpack_packComponents, if_neg (by decide), if_pos rfl, dif_neg hzero,
      UnpackedFloat.finite.injEq]
    exact ⟨rfl, hmantissa, by omega⟩
  · omega

end CodeAtlas.Binary64
