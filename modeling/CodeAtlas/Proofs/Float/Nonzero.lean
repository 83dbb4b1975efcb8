import CodeAtlas.Proofs.Float.Rounding

/-!
# Results that are not zero

Whether a quotient of floats makes sense is a question of whether its divisor is zero, and rounding
may turn a result into zero that is not. It does not do so with a difference: two floats that are not
equal are so far apart that their difference is not rounded to zero (`nonzero_sub`). Nor does it with
a sum of floats that are not negative, unless all of them are zero, nor with a product by a factor
that is not less than one, nor with an average of counts.

Being a number is not required of what is not zero: what is not a number is not zero either. It is
required of what is positive, since nothing is less than what is not a number.
-/

namespace CodeAtlas.Binary64

open Float.Model Float.Model.UnpackedFloat

/-! ## Properties of what is unpacked -/

/-- Not negative, as far as it is a number. -/
def IsNonneg : UnpackedFloat → Prop
  | .notANumber => True
  | .infinity s | .zero s | .finite s _ _ _ => s = .positive

def IsZero : UnpackedFloat → Prop
  | .zero _ => True
  | _ => False

def IsPositive : UnpackedFloat → Prop
  | .infinity s | .finite s _ _ _ => s = .positive
  | _ => False

/-- A finite number is represented as it has to be. -/
def IsCanonical : UnpackedFloat → Prop
  | .finite _ m e _ => Canonical m e
  | _ => True

variable {u v : UnpackedFloat} {s : Sign} {m : ℕ} {e : ℤ} {h : 0 < m}

theorem isNonneg_iff : IsNonneg u ↔ u = .notANumber ∨ u = .infinity .positive ∨
    u = .zero .positive ∨ ∃ m e h, u = .finite .positive m e h := by
  cases u with
  | finite s m e h =>
    refine ⟨fun hs ↦ Or.inr (Or.inr (Or.inr ⟨m, e, h, hs ▸ rfl⟩)), ?_⟩
    rintro (⟨⟨⟩⟩ | ⟨⟨⟩⟩ | ⟨⟨⟩⟩ | ⟨m, e, h, ⟨⟩⟩)
    rfl
  | _ => simp [IsNonneg]

theorem IsPositive.isNonneg (hu : IsPositive u) : IsNonneg u := by
  cases u with
  | notANumber => trivial
  | zero s => exact hu.elim
  | _ => exact hu

theorem IsPositive.not_isZero (hu : IsPositive u) : ¬ IsZero u := by
  cases u with
  | zero s => exact hu.elim
  | _ => exact id

theorem isCanonical_unpack (v : Float.Model) : IsCanonical v.unpack := by
  cases hv : v.unpack with
  | finite s m e h => exact (canonical_of_unpack hv).1
  | _ => trivial

theorem isNonneg_packComponents (e : BitVec 11) (m : BitVec 52) :
    IsNonneg (UnpackedFloat.unpack Format.binary64 (packComponents Format.binary64 .positive e m)) := by
  rw [unpack_packComponents]
  split_ifs
  · rfl
  · trivial
  · rfl
  · rfl
  · rfl

theorem isNonneg_unpack_pack (hu : IsNonneg u) : IsNonneg (Float.Model.pack u).unpack := by
  cases u with
  | notANumber => exact isNonneg_packComponents _ _
  | infinity s =>
    obtain rfl : s = .positive := hu
    exact isNonneg_packComponents _ _
  | zero s =>
    obtain rfl : s = .positive := hu
    exact isNonneg_packComponents _ _
  | finite s m e h =>
    obtain rfl : s = .positive := hu
    have hunpack : (Float.Model.pack (.finite .positive m e h)).unpack
        = UnpackedFloat.unpack Format.binary64
          (UnpackedFloat.pack Format.binary64 (.finite .positive m e h)) := rfl
    rw [hunpack, UnpackedFloat.pack]
    dsimp only
    split_ifs <;> exact isNonneg_packComponents _ _

theorem unpack_pack_infinity (s : Sign) :
    (Float.Model.pack (.infinity s)).unpack = .infinity s := by
  refine (unpack_packComponents s (-1#11) 0).trans ?_
  rw [if_pos rfl]
  exact if_pos rfl

theorem not_isZero_unpack_pack (hc : IsCanonical u) (hu : ¬ IsZero u) :
    ¬ IsZero (Float.Model.pack u).unpack := by
  cases u with
  | notANumber =>
    have hunpack : (Float.Model.pack .notANumber).unpack = .notANumber :=
      @unpack_packedNaN Format.binary64
    rw [hunpack]
    exact hu
  | infinity s =>
    rw [unpack_pack_infinity]
    exact hu
  | zero s => exact absurd trivial hu
  | finite s m e h =>
    rw [unpack_pack s h hc]
    split_ifs <;> exact hu

theorem isPositive_unpack_pack (hc : IsCanonical u) (hu : IsPositive u) :
    IsPositive (Float.Model.pack u).unpack := by
  cases u with
  | notANumber => exact hu.elim
  | zero s => exact hu.elim
  | infinity s =>
    rw [unpack_pack_infinity]
    exact hu
  | finite s m e h =>
    rw [unpack_pack s h hc]
    split_ifs <;> exact hu

/-! ## Floats -/

def Nonneg (x : Float) : Prop := IsNonneg x.toModel.unpack

/-- Not zero, which what is not a number is not either. -/
def Nonzero (x : Float) : Prop := ¬ IsZero x.toModel.unpack

theorem beq_zero_eq_false {x : Float} (hx : Nonzero x) : (x == 0.0) = false := by
  have hzero : (0.0 : Float).toModel.unpack = .zero .positive := by rfl
  have hbeq : (x == 0.0) = UnpackedFloat.beq x.toModel.unpack (0.0 : Float).toModel.unpack := rfl
  rw [hbeq, hzero]
  rw [Nonzero] at hx
  cases hu : x.toModel.unpack with
  | zero s => exact absurd (hu ▸ trivial) hx
  | infinity s => cases s <;> rfl
  | notANumber => rfl
  | finite s m e h => cases s <;> rfl

def Positive (x : Float) : Prop := IsPositive x.toModel.unpack

theorem zero_lt_of_positive {x : Float} (hx : Positive x) : 0.0 < x := by
  have hzero : (0.0 : Float).toModel.unpack = .zero .positive := by rfl
  refine decide_eq_true (show UnpackedFloat.lt (0.0 : Float).toModel.unpack x.toModel.unpack = true from ?_)
  rw [hzero]
  rw [Positive] at hx
  cases hu : x.toModel.unpack with
  | zero s => exact (hu ▸ hx : IsPositive (.zero s)).elim
  | notANumber => exact (hu ▸ hx : IsPositive .notANumber).elim
  | infinity s =>
    obtain rfl : s = .positive := (hu ▸ hx : IsPositive (.infinity s))
    rfl
  | finite s m e h =>
    obtain rfl : s = .positive := (hu ▸ hx : IsPositive (.finite s m e h))
    rfl

/-! ## Differences -/

/-- Canonical numbers with the same sign that differ are different once they have the same
exponent. -/
theorem shiftLeft_ne {m₁ m₂ : ℕ} {e₁ e₂ : ℤ} (h₁ : Canonical m₁ e₁) (h₂ : Canonical m₂ e₂)
    (hle : e₁ ≤ e₂) (hne : ¬ (m₁ = m₂ ∧ e₁ = e₂)) : m₁ ≠ m₂ <<< (e₂ - e₁).toNat := by
  rw [Nat.shiftLeft_eq]
  rcases hle.lt_or_eq with hlt | rfl
  · -- With the larger exponent, the number has all digits, so shifting makes it too large.
    have hfull : 2 ^ 52 ≤ m₂ := h₂.full_or_least.resolve_right (by have := h₁.le_exponent; omega)
    have htwo : 2 ≤ 2 ^ (e₂ - e₁).toNat := Nat.le_self_pow (by omega) 2
    have hlarge : 2 ^ 53 ≤ m₂ * 2 ^ (e₂ - e₁).toNat :=
      calc 2 ^ 53 = 2 ^ 52 * 2 := rfl
        _ ≤ m₂ * 2 ^ (e₂ - e₁).toNat := Nat.mul_le_mul hfull htwo
    exact (h₁.lt.trans_le hlarge).ne
  · rw [sub_self, Int.toNat_zero, pow_zero, mul_one]
    exact fun h ↦ hne ⟨h, rfl⟩

theorem decreaseExponent_min_ne {m₁ m₂ : ℕ} {e₁ e₂ : ℤ} (h₁ : Canonical m₁ e₁)
    (h₂ : Canonical m₂ e₂) (hne : ¬ (m₁ = m₂ ∧ e₁ = e₂)) :
    (decreaseExponent m₁ e₁ (min e₁ e₂)).1 ≠ (decreaseExponent m₂ e₂ (min e₁ e₂)).1 := by
  simp only [decreaseExponent]
  rcases le_total e₁ e₂ with hle | hle
  · rw [min_eq_left hle, sub_self, Int.toNat_zero, Nat.shiftLeft_zero]
    exact shiftLeft_ne h₁ h₂ hle hne
  · rw [min_eq_right hle, sub_self, Int.toNat_zero, Nat.shiftLeft_zero]
    exact (shiftLeft_ne h₂ h₁ hle fun h ↦ hne ⟨h.1.symm, h.2.symm⟩).symm

theorem decreaseExponent_pos (h : 0 < m) (e f : ℤ) : 0 < (decreaseExponent m e f).1 := by
  simp only [decreaseExponent, Nat.shiftLeft_eq]
  exact Nat.mul_pos h (Nat.two_pow_pos _)

/-- The exact difference of two finite numbers is zero only if they are equal. -/
theorem apply_sub_apply_ne_zero {s₁ s₂ : Sign} {m₁ m₂ : ℕ} (h₁ : 0 < m₁) (h₂ : 0 < m₂)
    (hne : s₁ = s₂ → m₁ ≠ m₂) : s₁.apply (m₁ : ℤ) - s₂.apply (m₂ : ℤ) ≠ 0 := by
  cases s₁ with
  | positive =>
    cases s₂ with
    | positive =>
      have hmantissa := hne rfl
      simp only [Sign.apply]
      omega
    | negative =>
      simp only [Sign.apply]
      omega
  | negative =>
    cases s₂ with
    | positive =>
      simp only [Sign.apply]
      omega
    | negative =>
      have hmantissa := hne rfl
      simp only [Sign.apply]
      omega

/-- What is rounded and not zero is represented as it has to be, and not zero. -/
theorem normalize_spec {mantissa : ℤ} (zeroSign : Sign) (hm : mantissa ≠ 0) (he : -1074 ≤ e) :
    ¬ IsZero (UnpackedFloat.normalize Format.binary64 mantissa e zeroSign) ∧
      IsCanonical (UnpackedFloat.normalize Format.binary64 mantissa e zeroSign) := by
  obtain ⟨s, m', e', h, heq, hcanonical, -⟩ := normalize_eq zeroSign hm he
  rw [heq]
  exact ⟨id, hcanonical⟩

theorem isPositive_normalize {mantissa : ℤ} (zeroSign : Sign) (hm : 0 < mantissa)
    (he : -1074 ≤ e) :
    IsPositive (UnpackedFloat.normalize Format.binary64 mantissa e zeroSign) := by
  obtain ⟨s, m', e', h, heq, -, hsign⟩ := normalize_eq zeroSign hm.ne' he
  rw [heq]
  exact hsign hm

theorem sub_spec (hu : IsCanonical u) (hv : IsCanonical v) (hne : UnpackedFloat.beq u v = false) :
    ¬ IsZero (UnpackedFloat.sub Format.binary64 u v) ∧
      IsCanonical (UnpackedFloat.sub Format.binary64 u v) := by
  cases u with
  | notANumber => exact ⟨id, trivial⟩
  | infinity s =>
    cases v with
    | infinity t =>
      rw [UnpackedFloat.sub]
      split_ifs <;> exact ⟨id, trivial⟩
    | _ => exact ⟨id, trivial⟩
  | zero s =>
    cases v with
    | zero t => exact absurd hne Bool.noConfusion
    | finite t n f k => exact ⟨id, hv⟩
    | _ => exact ⟨id, trivial⟩
  | finite s m e h =>
    cases v with
    | finite t n f k =>
      have hdiffer : s = t → ¬ (m = n ∧ e = f) := by
        rintro rfl ⟨rfl, rfl⟩
        cases s <;> simp [UnpackedFloat.beq, UnpackedFloat.compare] at hne
      refine normalize_spec .positive (apply_sub_apply_ne_zero (decreaseExponent_pos h _ _)
        (decreaseExponent_pos k _ _) fun hst ↦ ?_) (le_min hu.le_exponent hv.le_exponent)
      exact decreaseExponent_min_ne hu hv (hdiffer hst)
    | zero t => exact ⟨id, hu⟩
    | _ => exact ⟨id, trivial⟩

/-- **The difference of floats that are not equal is not zero.** -/
theorem nonzero_sub {x y : Float} (hne : (x == y) = false) : Nonzero (x - y) :=
  have hsub := sub_spec (isCanonical_unpack x.toModel) (isCanonical_unpack y.toModel) hne
  not_isZero_unpack_pack hsub.2 hsub.1

/-! ## Sums -/

theorem apply_add_apply_pos {m n : ℕ} (h : 0 < m) :
    0 < Sign.positive.apply (m : ℤ) + Sign.positive.apply (n : ℤ) := by
  simp only [Sign.apply]
  omega

theorem add_spec (hu : IsCanonical u) (hv : IsCanonical v) (hu0 : IsNonneg u) (hv0 : IsNonneg v)
    (hne : ¬ IsZero u ∨ ¬ IsZero v) :
    ¬ IsZero (UnpackedFloat.add Format.binary64 u v) ∧
      IsCanonical (UnpackedFloat.add Format.binary64 u v) ∧
      IsNonneg (UnpackedFloat.add Format.binary64 u v) := by
  rcases isNonneg_iff.mp hu0 with rfl | rfl | rfl | ⟨m, e, h, rfl⟩
  · exact ⟨id, trivial, trivial⟩
  · rcases isNonneg_iff.mp hv0 with rfl | rfl | rfl | ⟨n, f, k, rfl⟩
    · exact ⟨id, trivial, trivial⟩
    · exact ⟨id, trivial, rfl⟩
    · exact ⟨id, trivial, rfl⟩
    · exact ⟨id, trivial, rfl⟩
  · rcases isNonneg_iff.mp hv0 with rfl | rfl | rfl | ⟨n, f, k, rfl⟩
    · exact ⟨id, trivial, trivial⟩
    · exact ⟨id, trivial, rfl⟩
    · exact absurd hne (by simp [IsZero])
    · exact ⟨id, hv, rfl⟩
  · rcases isNonneg_iff.mp hv0 with rfl | rfl | rfl | ⟨n, f, k, rfl⟩
    · exact ⟨id, trivial, trivial⟩
    · exact ⟨id, trivial, rfl⟩
    · exact ⟨id, hu, rfl⟩
    · have hpos := apply_add_apply_pos (n := (decreaseExponent n f (min e f)).1)
        (decreaseExponent_pos h e (min e f))
      have hmin : -1074 ≤ min e f := le_min hu.le_exponent hv.le_exponent
      have hspec := normalize_spec .positive hpos.ne' hmin
      exact ⟨hspec.1, hspec.2, (isPositive_normalize .positive hpos hmin).isNonneg⟩

theorem isPositive_add (hu : IsCanonical u) (hv : IsCanonical v) (hu0 : IsPositive u)
    (hv0 : IsPositive v) : IsPositive (UnpackedFloat.add Format.binary64 u v) := by
  cases u with
  | notANumber => exact hu0.elim
  | zero s => exact hu0.elim
  | infinity s =>
    obtain rfl : s = .positive := hu0
    cases v with
    | notANumber => exact hv0.elim
    | infinity t =>
      obtain rfl : t = .positive := hv0
      rfl
    | _ => rfl
  | finite s m e h =>
    obtain rfl : s = .positive := hu0
    cases v with
    | notANumber => exact hv0.elim
    | zero t => rfl
    | infinity t => exact hv0
    | finite t n f k =>
      obtain rfl : t = .positive := hv0
      exact isPositive_normalize .positive
        (apply_add_apply_pos (decreaseExponent_pos h e (min e f)))
        (le_min hu.le_exponent hv.le_exponent)

/-! ## Products -/

theorem isNonneg_roundWithAccuracy (m : ℕ) (e : ℤ) (accuracy : Accuracy) :
    IsNonneg (roundWithAccuracy Format.binary64 .positive m e accuracy) := by
  rw [roundWithAccuracy]
  dsimp only
  split_ifs <;> rfl

theorem isNonneg_mul (hu : IsNonneg u) (hv : IsNonneg v) :
    IsNonneg (UnpackedFloat.mul Format.binary64 u v) := by
  rcases isNonneg_iff.mp hu with rfl | rfl | rfl | ⟨m, e, h, rfl⟩ <;>
    rcases isNonneg_iff.mp hv with rfl | rfl | rfl | ⟨n, f, k, rfl⟩ <;>
    first | trivial | rfl | exact isNonneg_roundWithAccuracy _ _ _

theorem isNonneg_div (hu : IsNonneg u) (hv : IsNonneg v) :
    IsNonneg (UnpackedFloat.div Format.binary64 u v) := by
  rcases isNonneg_iff.mp hu with rfl | rfl | rfl | ⟨m, e, h, rfl⟩ <;>
    rcases isNonneg_iff.mp hv with rfl | rfl | rfl | ⟨n, f, k, rfl⟩ <;>
    first | trivial | rfl | exact isNonneg_roundWithAccuracy _ _ _

theorem log2_add_log2_le {m n : ℕ} (hm : m ≠ 0) (hn : n ≠ 0) : m.log2 + n.log2 ≤ (m * n).log2 := by
  rw [Nat.le_log2 (Nat.mul_ne_zero hm hn), pow_add]
  exact Nat.mul_le_mul (Nat.log2_self_le hm) (Nat.log2_self_le hn)

/-- A product is not zero if the first factor is not less than one and the second one is not zero. -/
theorem mul_spec (hu : IsCanonical (.finite s m e h)) (hone : 0 ≤ m.log2 + e) (hv : IsCanonical v)
    (hne : ¬ IsZero v) :
    ¬ IsZero (UnpackedFloat.mul Format.binary64 (.finite s m e h) v) ∧
      IsCanonical (UnpackedFloat.mul Format.binary64 (.finite s m e h) v) := by
  cases v with
  | notANumber => exact ⟨id, trivial⟩
  | infinity t => exact ⟨id, trivial⟩
  | zero t => exact absurd trivial hne
  | finite t n f k =>
    have hlog := log2_add_log2_le h.ne' k.ne'
    have hexponent := hv.le_exponent
    have hdigits : 52 ≤ (m * n).log2 ∨ e + f ≤ -1074 := by
      rcases hu.full_or_least with hfull | hleast
      · have hm := (Nat.le_log2 h.ne').mpr hfull
        omega
      · omega
    obtain ⟨m', e', h', heq, hcanonical, -⟩ := roundWithAccuracy_eq (s * t) .exact
      (Nat.mul_ne_zero h.ne' k.ne') hdigits (by omega)
    rw [UnpackedFloat.mul, heq]
    exact ⟨id, hcanonical⟩

/-! ## Quotients -/

/-- The quotient of the mantissas has enough digits, and is as large as the numbers say. -/
theorem divCore_spec {n : ℕ} {f : ℤ} (hm : m ≠ 0) (hn : n ≠ 0)
    (hlarge : -1023 ≤ m.log2 + e - (n.log2 + f)) :
    ∃ q e' accuracy, divCore Format.binary64 m e n f = (q, e', accuracy) ∧ q ≠ 0 ∧
      (52 ≤ q.log2 ∨ e' ≤ -1074) ∧ -1074 ≤ q.log2 + e' := by
  obtain ⟨e', he'⟩ : ∃ e', min (e - f)
      (Format.binary64.targetExponent (totalExponent m e - totalExponent n f)) = e' := ⟨_, rfl⟩
  obtain ⟨k, hk⟩ : ∃ k : ℕ, (e - f - e').toNat = k := ⟨_, rfl⟩
  have hcore : divCore Format.binary64 m e n f
      = ((m <<< k) / n, e', accuracyOfFraction ((m <<< k) % n) n) := by
    rw [divCore]
    simp only [he', hk]
  rw [targetExponent_eq, totalExponent, totalExponent] at he'
  -- The shifted mantissa has so many digits more than the other one.
  obtain ⟨d, hd⟩ : ∃ d, m.log2 + k = n.log2 + 1 + d :=
    Nat.exists_eq_add_of_le (by omega)
  have hquotient : 2 ^ d ≤ (m <<< k) / n := by
    rw [Nat.le_div_iff_mul_le (Nat.pos_of_ne_zero hn), Nat.shiftLeft_eq]
    calc 2 ^ d * n ≤ 2 ^ d * 2 ^ (n.log2 + 1) := Nat.mul_le_mul_left _ Nat.lt_log2_self.le
      _ = 2 ^ m.log2 * 2 ^ k := by rw [← pow_add, ← pow_add, hd, add_comm]
      _ ≤ m * 2 ^ k := Nat.mul_le_mul_right _ (Nat.log2_self_le hm)
  have hne : (m <<< k) / n ≠ 0 := ((Nat.two_pow_pos d).trans_le hquotient).ne'
  have hlog := (Nat.le_log2 hne).mpr hquotient
  exact ⟨_, _, _, hcore, hne, by omega, by omega⟩

/-- A quotient is not zero if what is divided is not less than one and the divisor is finite. -/
theorem div_spec (hone : 0 ≤ m.log2 + e) {t : Sign} {n : ℕ} {f : ℤ} {k : 0 < n}
    (hv : IsCanonical (.finite t n f k)) (hf : f ≤ 971) :
    ¬ IsZero (UnpackedFloat.div Format.binary64 (.finite s m e h) (.finite t n f k)) ∧
      IsCanonical (UnpackedFloat.div Format.binary64 (.finite s m e h) (.finite t n f k)) := by
  have hdigits := (Nat.log2_lt k.ne').mpr hv.lt
  obtain ⟨q, e', accuracy, hcore, hq, hdigits, hlow⟩ :=
    divCore_spec (m := m) (e := e) (f := f) h.ne' k.ne' (by omega)
  obtain ⟨m', e', h', heq, hcanonical, -⟩ := roundWithAccuracy_eq (s / t) accuracy hq hdigits hlow
  rw [UnpackedFloat.div, hcore]
  dsimp only
  rw [heq]
  exact ⟨id, hcanonical⟩

/-! ## Counts -/

/-- A canonical number that is not too large has an exponent that can be stored. -/
theorem Canonical.exponent_le (hc : Canonical m e) (h : 0 < m) (hsize : m.log2 + e ≤ 1023) :
    e ≤ 971 := by
  rcases hc.full_or_least with hfull | hleast
  · have hdigits := (Nat.le_log2 h.ne').mpr hfull
    omega
  · omega

theorem unpack_toFloat {n : ℕ} (hn : n ≠ 0) (hlt : n < 2 ^ 53) :
    ∃ m e h, n.toUInt64.toFloat.toModel.unpack = .finite .positive m e h ∧ Canonical m e ∧
      n.log2 ≤ m.log2 + e ∧ m.log2 + e ≤ n.log2 + 1 := by
  obtain ⟨m, e, h, heq, hcanonical, hge, hle⟩ := round_eq .positive hn (e := 0) (by omega)
  have hlog := (Nat.log2_lt hn).mpr hlt
  have htoNat : n.toUInt64.toNat = n := by
    rw [Nat.toUInt64_eq, UInt64.toNat_ofNat', Nat.mod_eq_of_lt (by omega)]
  have hmodel : n.toUInt64.toFloat.toModel = Float.Model.pack (.finite .positive m e h) := by
    refine congrArg Float.Model.pack ?_
    rw [UnpackedFloat.ofUInt64, htoNat, UnpackedFloat.ofNat, UnpackedFloat.ofInt,
      UnpackedFloat.normalize, Int.compare_eq_gt.mpr (by omega)]
    exact heq
  refine ⟨m, e, h, ?_, hcanonical, by omega, by omega⟩
  rw [hmodel, unpack_pack .positive h hcanonical, if_pos (hcanonical.exponent_le h (by omega))]

/-- A count that is not zero becomes a float that is not less than one, and not much larger than the
count. It is infinite if it is too large. -/
theorem exists_unpack_ofNat {n : ℕ} (hn : n ≠ 0) :
    ∃ m e h, (Float.ofNat n).toModel.unpack = (Float.Model.pack (.finite .positive m e h)).unpack ∧
      Canonical m e ∧ n.log2 ≤ m.log2 + e ∧ m.log2 + e ≤ n.log2 + 2 := by
  by_cases hlt : n < 2 ^ 53
  · obtain ⟨m₁, e₁, h₁, hunpack, hcanonical₁, hge₁, hle₁⟩ := unpack_toFloat hn hlt
    have hone : (Float.ofBits 0x3FF0000000000000).toModel.unpack
        = .finite .positive (2 ^ 52) (-52) (Nat.two_pow_pos 52) := by rfl
    have hofNat : Float.ofNat n = n.toUInt64.toFloat * Float.ofBits 0x3FF0000000000000 := by
      have hfast : n < 2 ^ 53 ∧ 0 ≤ 22 := ⟨hlt, Nat.zero_le 22⟩
      exact dif_pos hfast
    have hlog : (m₁ * 2 ^ 52).log2 = m₁.log2 + 52 := by
      rw [← Nat.shiftLeft_eq, log2_shiftLeft h₁.ne']
    obtain ⟨m, e, h, heq, hcanonical, hge, hle⟩ := roundWithAccuracy_eq (.positive * .positive)
      (m := m₁ * 2 ^ 52) (e := e₁ + -52) .exact (Nat.mul_ne_zero h₁.ne' (Nat.two_pow_pos 52).ne')
      (by omega) (by omega)
    refine ⟨m, e, h, ?_, hcanonical, by omega, by omega⟩
    have hmul : (n.toUInt64.toFloat * Float.ofBits 0x3FF0000000000000).toModel
        = Float.Model.pack (UnpackedFloat.mul Format.binary64 n.toUInt64.toFloat.toModel.unpack
          (Float.ofBits 0x3FF0000000000000).toModel.unpack) := rfl
    rw [hofNat, hmul, hunpack, hone, UnpackedFloat.mul, heq]
    rfl
  · have hslow : ¬ (n < 2 ^ 53 ∧ 0 ≤ 22) := fun h ↦ hlt h.1
    have hofNat : Float.ofNat n = Float.ofModel (Float.Model.ofScientific n 0) := dif_neg hslow
    have hshift : (n <<< 53) * 1 ≠ 0 := by
      rw [Nat.shiftLeft_eq]
      omega
    have hlog : ((n <<< 53) * 1).log2 = n.log2 + 53 := by
      rw [Nat.mul_one, log2_shiftLeft hn]
    obtain ⟨m, e, h, heq, hcanonical, hge, hle⟩ := roundWithAccuracy_eq (.positive * .positive)
      (m := (n <<< 53) * 1) (e := -53 + 0) .exact hshift (by omega) (by omega)
    refine ⟨m, e, h, ?_, hcanonical, by omega, by omega⟩
    rw [hofNat]
    refine congrArg (fun u ↦ (Float.Model.pack u).unpack) ?_
    have hbits : (2 : ℤ) ^ Format.binary64.exponentBits = 2048 := rfl
    rw [UnpackedFloat.ofScientific, dif_neg hn, hbits, if_neg (by decide), if_neg (by omega),
      if_pos le_rfl]
    exact heq

/-! ## Arithmetic on floats -/

section

variable {x y : Float} {n : ℕ}

theorem Nonneg.mul (hx : Nonneg x) (hy : Nonneg y) : Nonneg (x * y) :=
  isNonneg_unpack_pack (isNonneg_mul hx hy)

theorem Nonneg.div (hx : Nonneg x) (hy : Nonneg y) : Nonneg (x / y) :=
  isNonneg_unpack_pack (isNonneg_div hx hy)

/-- A sum is zero only if both floats are, where none is negative. -/
theorem Nonneg.add (hx : Nonneg x) (hy : Nonneg y) (hne : Nonzero x ∨ Nonzero y) :
    Nonneg (x + y) ∧ Nonzero (x + y) :=
  have hadd := add_spec (isCanonical_unpack x.toModel) (isCanonical_unpack y.toModel) hx hy hne
  ⟨isNonneg_unpack_pack hadd.2.2, not_isZero_unpack_pack hadd.2.1 hadd.1⟩

/-- **A product is not zero** if a factor is not less than one and the other one is not zero. -/
theorem Nonzero.mul (hx : x.toModel.unpack = .finite s m e h) (hone : 0 ≤ m.log2 + e)
    (hy : Nonzero y) : Nonzero (x * y) := by
  have hmul := mul_spec (hx ▸ isCanonical_unpack x.toModel) hone (isCanonical_unpack y.toModel) hy
  have hunpack : (x * y).toModel.unpack = (Float.Model.pack
      (UnpackedFloat.mul Format.binary64 x.toModel.unpack y.toModel.unpack)).unpack := rfl
  rw [Nonzero, hunpack, hx]
  exact not_isZero_unpack_pack hmul.2 hmul.1

theorem positive_ofNat (hn : n ≠ 0) : Positive (Float.ofNat n) := by
  obtain ⟨m, e, h, heq, hcanonical, -⟩ := exists_unpack_ofNat hn
  rw [Positive, heq]
  exact isPositive_unpack_pack hcanonical rfl

theorem Positive.add (hx : Positive x) (hy : Positive y) : Positive (x + y) :=
  isPositive_unpack_pack
    (add_spec (isCanonical_unpack _) (isCanonical_unpack _) (IsPositive.isNonneg hx)
      (IsPositive.isNonneg hy) (Or.inl (IsPositive.not_isZero hx))).2.1
    (isPositive_add (isCanonical_unpack _) (isCanonical_unpack _) hx hy)

theorem nonzero_ofNat (hn : n ≠ 0) : Nonzero (Float.ofNat n) :=
  IsPositive.not_isZero (positive_ofNat hn)

theorem nonneg_ofNat (n : ℕ) : Nonneg (Float.ofNat n) := by
  by_cases hn : n = 0
  · rw [hn]
    rfl
  · exact IsPositive.isNonneg (positive_ofNat hn)

/-- Half a unit more than a count is positive, also if there is nothing to count. -/
theorem positive_ofNat_add_half (n : ℕ) : Positive (Float.ofNat n + 0.5) := by
  by_cases hn : n = 0
  · rw [hn]
    rfl
  · have hhalf : Positive 0.5 := by rfl
    exact (positive_ofNat hn).add hhalf

/-- **An average of counts is not zero**, if it is not taken over more than any machine can count. -/
theorem nonzero_ofNat_div_ofNat {total : ℕ} (htotal : total ≠ 0) (hn : n ≠ 0) (hlt : n < 2 ^ 1000) :
    Nonzero (Float.ofNat total / Float.ofNat n) := by
  obtain ⟨m, e, h, heq, hcanonical, hge, -⟩ := exists_unpack_ofNat htotal
  obtain ⟨m', e', h', heq', hcanonical', -, hle'⟩ := exists_unpack_ofNat hn
  have hlog := (Nat.log2_lt hn).mpr hlt
  have hfinite := hcanonical'.exponent_le h' (by omega)
  have hunpack : (Float.ofNat total / Float.ofNat n).toModel.unpack
      = (Float.Model.pack (UnpackedFloat.div Format.binary64 (Float.ofNat total).toModel.unpack
        (Float.ofNat n).toModel.unpack)).unpack := rfl
  rw [Nonzero, hunpack, heq', unpack_pack .positive h' hcanonical', if_pos hfinite, heq,
    unpack_pack .positive h hcanonical]
  split_ifs
  · have hone : 0 ≤ m.log2 + e := by omega
    have hdiv := div_spec (s := .positive) (h := h) (t := .positive) (k := h') hone hcanonical' hfinite
    exact not_isZero_unpack_pack hdiv.2 hdiv.1
  · exact not_isZero_unpack_pack trivial id

end

end CodeAtlas.Binary64
