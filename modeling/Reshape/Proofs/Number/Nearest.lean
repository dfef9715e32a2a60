import Reshape.Proofs.Number.Rounding
/-!
# The order of the floats of integers

The float of an integer stands for the nearest number with 53 binary digits, ties to even. Floats
of integers compare as these numbers do. So they keep the order of the integers, but integers that
are beyond `2 ^ 53` may have the same float.
-/
namespace Reshape.Number

open Float.Model (Format UnpackedFloat totalExponent)
open Float.Model.UnpackedFloat

/-! ## Rounded integers -/

/-- A natural number rounded to 53 binary digits. -/
def roundedNat (n : Nat) : Nat := roundedQuotient n (2 ^ (n.log2 - 52)) * 2 ^ (n.log2 - 52)

/-- What the float of an integer stands for. -/
def rounded (n : Int) : Int := n.sign * roundedNat n.natAbs

theorem log2_le_of_lt {n : Nat} (h : n < 2 ^ 53) : n.log2 ≤ 52 := by
  rcases Nat.eq_zero_or_pos n with rfl | hpos
  · rw [Nat.log2_zero]
    exact Nat.zero_le 52
  · exact Nat.le_of_lt_succ ((Nat.log2_lt hpos.ne').mpr h)

theorem roundedNat_of_lt {n : Nat} (h : n < 2 ^ 53) : roundedNat n = n := by
  rw [roundedNat, Nat.sub_eq_zero_of_le (log2_le_of_lt h), Nat.pow_zero, roundedQuotient_one,
    Nat.mul_one]

theorem roundedNat_of_log2 {n k : Nat} (hlog : n.log2 = 52 + k) :
    roundedNat n = roundedQuotient n (2 ^ k) * 2 ^ k := by
  rw [roundedNat, hlog, Nat.add_sub_cancel_left]

theorem roundedNat_of_le {n : Nat} (h : n ≤ 2 ^ 53) : roundedNat n = n := by
  rcases Nat.lt_or_eq_of_le h with hlt | rfl
  · exact roundedNat_of_lt hlt
  · decide +kernel

/-- Rounding stays between the powers of two around a number. -/
theorem roundedNat_bounds {n k : Nat} (hlog : n.log2 = 52 + k) :
    2 ^ (52 + k) ≤ roundedNat n ∧ roundedNat n ≤ 2 ^ (53 + k) := by
  obtain ⟨hlow, hhigh⟩ := roundedQuotient_of_log2 hlog
  rw [roundedNat_of_log2 hlog, Nat.pow_add, Nat.pow_add]
  exact ⟨Nat.mul_le_mul_right _ hlow, Nat.mul_le_mul_right _ hhigh⟩

theorem exists_log2_eq {n : Nat} (h : 2 ^ 53 ≤ n) : ∃ k, n.log2 = 52 + (k + 1) := by
  have hne : n ≠ 0 := fun hzero => absurd (hzero ▸ h) (by decide)
  obtain ⟨k, hk⟩ := Nat.exists_eq_add_of_le ((Nat.le_log2 hne).mpr h)
  exact ⟨k, by omega⟩

theorem roundedNat_mono {m n : Nat} (h : m ≤ n) : roundedNat m ≤ roundedNat n := by
  rcases Nat.lt_or_ge n (2 ^ 53) with hn | hn
  · rwa [roundedNat_of_lt (h.trans_lt hn), roundedNat_of_lt hn]
  obtain ⟨k, hk⟩ := exists_log2_eq hn
  obtain ⟨hlow, -⟩ := roundedNat_bounds hk
  rcases Nat.lt_or_ge m (2 ^ 53) with hm | hm
  · have hpower : 2 ^ 53 ≤ 2 ^ (52 + (k + 1)) := Nat.pow_le_pow_right (by decide) (by omega)
    rw [roundedNat_of_lt hm]
    exact hm.le.trans (hpower.trans hlow)
  obtain ⟨j, hj⟩ := exists_log2_eq hm
  obtain ⟨-, hhigh⟩ := roundedNat_bounds hj
  have hjk : j ≤ k := by
    have hm₀ : m ≠ 0 := ne_zero_of_log2 hj
    have hlog : m.log2 ≤ n.log2 :=
      (Nat.le_log2 (ne_zero_of_log2 hk)).mpr ((Nat.log2_self_le hm₀).trans h)
    omega
  rcases Nat.lt_or_eq_of_le hjk with hlt | rfl
  · have hpower : 2 ^ (53 + (j + 1)) ≤ 2 ^ (52 + (k + 1)) :=
      Nat.pow_le_pow_right (by decide) (by omega)
    exact hhigh.trans (hpower.trans hlow)
  · rw [roundedNat_of_log2 hj, roundedNat_of_log2 hk]
    exact Nat.mul_le_mul_right _ (roundedQuotient_mono _ h)

@[simp] theorem rounded_natCast (n : Nat) : rounded n = roundedNat n := by
  rw [rounded, Int.natAbs_natCast]
  rcases Nat.eq_zero_or_pos n with rfl | hpos
  · rfl
  · rw [Int.sign_natCast_of_ne_zero hpos.ne', Int.one_mul]

@[simp] theorem rounded_neg (n : Int) : rounded (-n) = -rounded n := by
  rw [rounded, rounded, Int.sign_neg, Int.natAbs_neg, Int.neg_mul]

/-- Integers of up to 53 binary digits stay as they are. -/
theorem rounded_of_natAbs_le {n : Int} (h : n.natAbs ≤ 2 ^ 53) : rounded n = n := by
  rw [rounded, roundedNat_of_le h, Int.sign_mul_natAbs]

/-- Rounding keeps the order, as far as it tells integers apart. -/
theorem rounded_mono : Monotone rounded := by
  intro a b h
  obtain ⟨m, rfl | rfl⟩ := a.eq_nat_or_neg <;> obtain ⟨n, rfl | rfl⟩ := b.eq_nat_or_neg
  · rw [rounded_natCast, rounded_natCast]
    exact Int.ofNat_le.mpr (roundedNat_mono (Int.ofNat_le.mp h))
  · obtain ⟨rfl, rfl⟩ : m = 0 ∧ n = 0 := by omega
    exact le_rfl
  · rw [rounded_neg, rounded_natCast, rounded_natCast]
    omega
  · rw [rounded_neg, rounded_neg, rounded_natCast, rounded_natCast]
    exact neg_le_neg (Int.ofNat_le.mpr (roundedNat_mono (by omega)))

/-! ## Small integers -/

theorem unpack_one : (Float.ofBits 0x3FF0000000000000).toModel.unpack =
    .finite .positive leastMantissa (-52) leastMantissa_pos := rfl

/-- Rounding that does not carry leaves the exponent as it is. -/
theorem roundWithAccuracy_of_lt {mantissa k : Nat} {exponent : Int} {digits : Nat} (sign : Sign)
    (hlog : mantissa.log2 = 52 + k) (he : -1074 ≤ exponent + k) (he' : exponent + k ≤ 970)
    (hdigits : roundedQuotient mantissa (2 ^ k) = digits) (hlt : digits < 2 * leastMantissa) :
    ∃ hpos : 0 < digits, IsNormal digits (exponent + k) ∧
      roundWithAccuracy Format.binary64 sign mantissa exponent .exact =
        .finite sign digits (exponent + k) hpos := by
  obtain ⟨rounded, a, hpos, hvalue, hnormal, hround⟩ :=
    roundWithAccuracy_isNormal sign hlog he he'
  have hzero : a = 0 := by
    by_contra hcarry
    have htwo : 2 ^ 1 ≤ 2 ^ a := Nat.pow_le_pow_right (by decide) (by omega)
    have hle : leastMantissa * 2 ≤ rounded * 2 ^ a := Nat.mul_le_mul hnormal.least htwo
    omega
  obtain rfl := hzero
  rw [Nat.pow_zero, Nat.mul_one, hdigits] at hvalue
  obtain rfl := hvalue
  rw [Int.natCast_zero, Int.add_zero] at hnormal hround
  exact ⟨hpos, hnormal, hround⟩

/-- A word that a mantissa can hold becomes a float without a loss. -/
theorem toFloat_of_lt {n j : Nat} (hne : n ≠ 0) (hlog : n.log2 + j = 52) :
    ∃ hpos : 0 < n * 2 ^ j, IsNormal (n * 2 ^ j) (-j) ∧
      n.toUInt64.toFloat = .ofModel (.pack (.finite .positive (n * 2 ^ j) (-j) hpos)) := by
  have hlog' : (n <<< j).log2 = 52 + 0 := by
    rw [log2_shiftLeft hne, hlog]
  have hdigits : roundedQuotient (n <<< j) (2 ^ 0) = n * 2 ^ j := by
    rw [Nat.pow_zero, roundedQuotient_one, Nat.shiftLeft_eq]
  have hlt : n * 2 ^ j < 2 * leastMantissa := by
    have hshort : n <<< j < 2 ^ 53 := (Nat.log2_lt (ne_zero_of_log2 hlog')).mp (by omega)
    rwa [Nat.shiftLeft_eq] at hshort
  obtain ⟨hpos, hnormal, hround⟩ :=
    @roundWithAccuracy_of_lt _ 0 (-j) _ .positive hlog' (by omega) (by omega) hdigits hlt
  rw [Int.natCast_zero, Int.add_zero] at hnormal hround
  refine ⟨hpos, hnormal, ?_⟩
  have hword : n.toUInt64.toNat = n := by
    have hsmall : n < 2 ^ 53 := (Nat.log2_lt hne).mp (by omega)
    exact Nat.mod_eq_of_lt (hsmall.trans (by decide))
  have htarget : Format.binary64.targetExponent (totalExponent n 0) = -(j : Int) := by
    simp only [Format.targetExponent, totalExponent, Format.mantissaBits, Format.minExponent]
    omega
  have hamount : (0 - -(j : Int)).toNat = j := by omega
  have hsign : compare (n : Int) 0 = .gt := compare_gt_iff_gt.mpr (by omega)
  have hmodel : n.toUInt64.toFloat =
      .ofModel (.pack (UnpackedFloat.normalize Format.binary64 n.toUInt64.toNat 0 .positive)) := rfl
  rw [hmodel, hword, UnpackedFloat.normalize, hsign]
  dsimp only
  rw [Int.toNat_natCast, UnpackedFloat.round, htarget, decreaseExponent, hamount]
  dsimp only
  rw [Int.zero_sub, hround]

/-- A number with a mantissa of full length is itself times one. -/
theorem mul_one_isNormal {mantissa : Nat} {exponent : Int} (hpos : 0 < mantissa)
    (h : IsNormal mantissa exponent) (he : exponent ≤ 970) :
    Float.ofModel (.pack (.finite .positive mantissa exponent hpos)) *
        Float.ofBits 0x3FF0000000000000 =
      .ofModel (.pack (.finite .positive mantissa exponent hpos)) := by
  have hlog : mantissa.log2 = 52 := (Nat.log2_eq_iff hpos.ne').mpr ⟨h.least, h.lt⟩
  have hlog' : (mantissa * leastMantissa).log2 = 52 + 52 := by
    have hpower : mantissa * leastMantissa = mantissa <<< 52 := (Nat.shiftLeft_eq mantissa 52).symm
    rw [hpower, log2_shiftLeft hpos.ne', hlog]
  have hlow := h.leastExponent
  obtain ⟨_, -, hround⟩ :=
    @roundWithAccuracy_of_lt _ _ (exponent + -52) _ .positive hlog' (by omega) (by omega)
      (roundedQuotient_mul_self leastMantissa_pos mantissa) h.lt
  have hplace : exponent + -52 + (52 : Nat) = exponent := by omega
  have hmodel : Float.ofModel (.pack (.finite .positive mantissa exponent hpos)) *
      Float.ofBits 0x3FF0000000000000 =
      .ofModel (.pack (UnpackedFloat.mul Format.binary64
        (unpack Format.binary64 (pack Format.binary64 (.finite .positive mantissa exponent hpos)))
        (Float.ofBits 0x3FF0000000000000).toModel.unpack)) := rfl
  simp only [hplace] at hround
  rw [hmodel, unpack_pack_isNormal hpos h, unpack_one]
  exact congrArg (Float.ofModel ∘ .pack) hround

/-- The float of an integer that a mantissa can hold is not rounded. -/
theorem ofNat_of_lt {n j : Nat} (hne : n ≠ 0) (hlog : n.log2 + j = 52) :
    ∃ hpos : 0 < n * 2 ^ j, IsNormal (n * 2 ^ j) (-j) ∧
      Float.ofNat n = .ofModel (.pack (.finite .positive (n * 2 ^ j) (-j) hpos)) := by
  obtain ⟨hpos, hnormal, hfloat⟩ := toFloat_of_lt hne hlog
  refine ⟨hpos, hnormal, ?_⟩
  have hlt : n < 2 ^ 53 := (Nat.log2_lt hne).mp (by omega)
  have hmodel : Float.ofNat n = n.toUInt64.toFloat * Float.ofBits 0x3FF0000000000000 := by
    change Float.ofScientific n false 0 = _
    rw [Float.ofScientific, dif_pos ⟨hlt, Nat.zero_le _⟩]
    rfl
  rw [hmodel, hfloat, mul_one_isNormal hpos hnormal (by omega)]

/-! ## Floats that stand for integers -/

/-- A number with a mantissa of full length that stands for an integer, or zero. -/
inductive StandsFor : UnpackedFloat → Int → Prop
  | zero (sign : Sign) : StandsFor (.zero sign) 0
  | positive {mantissa a n : Nat} (hpos : 0 < mantissa) (normal : IsNormal mantissa (a - 52))
    (value : mantissa * 2 ^ a = n * 2 ^ 52) :
    StandsFor (.finite .positive mantissa (a - 52) hpos) n
  | negative {mantissa a n : Nat} (hpos : 0 < mantissa) (normal : IsNormal mantissa (a - 52))
    (value : mantissa * 2 ^ a = n * 2 ^ 52) :
    StandsFor (.finite .negative mantissa (a - 52) hpos) (-n)

theorem StandsFor.neg {u : UnpackedFloat} {v : Int} (h : StandsFor u v) : StandsFor u.neg (-v) := by
  cases h with
  | zero sign => exact .zero _
  | positive hpos normal value => exact .negative hpos normal value
  | negative hpos normal value =>
    rw [Int.neg_neg]
    exact .positive hpos normal value

/-- Such a number is read back from its bits. -/
theorem StandsFor.unpack_pack {u : UnpackedFloat} {v : Int} (h : StandsFor u v) :
    unpack Format.binary64 (pack Format.binary64 u) = u := by
  cases h with
  | zero sign => cases sign <;> rfl
  | positive hpos normal _ => exact unpack_pack_isNormal hpos normal .positive
  | negative hpos normal _ => exact unpack_pack_isNormal hpos normal .negative

theorem StandsFor.toModel {u : UnpackedFloat} {v : Int} (h : StandsFor u v) :
    StandsFor (Float.ofModel (.pack u)).toModel.unpack v := by
  change StandsFor (unpack Format.binary64 (pack Format.binary64 u)) v
  rw [h.unpack_pack]
  exact h

theorem standsFor_positive {mantissa a n : Nat} {exponent : Int} {hpos : 0 < mantissa}
    (hnormal : IsNormal mantissa exponent) (hplace : exponent = a - 52)
    (hvalue : mantissa * 2 ^ a = n * 2 ^ 52) :
    StandsFor (.finite .positive mantissa exponent hpos) n := by
  obtain rfl := hplace
  exact .positive hpos hnormal hvalue

/-- The float of an integer that is not huge stands for the rounded integer. -/
theorem standsFor_ofNat {n : Nat} (hn : n.log2 ≤ 1022) :
    StandsFor (Float.ofNat n).toModel.unpack (roundedNat n) := by
  rcases Nat.eq_zero_or_pos n with rfl | hpos
  · exact .zero _
  rcases Nat.lt_or_ge n (2 ^ 53) with hlt | hge
  · obtain ⟨j, hj⟩ := Nat.exists_eq_add_of_le (log2_le_of_lt hlt)
    obtain ⟨_, hnormal, hfloat⟩ := ofNat_of_lt hpos.ne' hj.symm
    have hvalue : n * 2 ^ j * 2 ^ n.log2 = n * 2 ^ 52 := by
      rw [Nat.mul_assoc, ← Nat.pow_add, Nat.add_comm, ← hj]
    rw [hfloat, roundedNat_of_lt hlt]
    exact (standsFor_positive hnormal (by omega) hvalue).toModel
  · obtain ⟨k, hk⟩ := exists_log2_eq hge
    obtain ⟨mantissa, a, _, hdigits, hnormal, hfloat⟩ :=
      ofNat_isNormal hk k.succ_pos (by omega)
    have hvalue : mantissa * 2 ^ (k + 1 + a + 52) = roundedNat n * 2 ^ 52 := by
      rw [roundedNat_of_log2 hk, ← hdigits]
      ring
    rw [hfloat]
    exact (standsFor_positive hnormal (by omega) hvalue).toModel

/-- The float of an integer that is not huge stands for the rounded integer. -/
theorem standsFor_ofInt {n : Int} (hn : n.natAbs.log2 ≤ 1022) :
    StandsFor (Float.ofInt n).toModel.unpack (rounded n) := by
  cases n with
  | ofNat n =>
    have hrounded : rounded (Int.ofNat n) = roundedNat n := rounded_natCast n
    rw [hrounded]
    exact standsFor_ofNat hn
  | negSucc n =>
    have hrounded : rounded (Int.negSucc n) = -roundedNat (n + 1) := by
      rw [← rounded_natCast, ← rounded_neg]
      rfl
    have hstands : StandsFor (Float.ofNat (n + 1)).toModel.unpack (roundedNat (n + 1)) :=
      standsFor_ofNat hn
    rw [hrounded]
    exact hstands.neg.toModel

/-! ## Comparing -/

/-- Numbers with mantissas of full length compare by their exponents first, that is as multiples of
one power of two. -/
theorem compare_isNormal {m m' a a' : Nat} (h : IsNormal m (a - 52)) (h' : IsNormal m' (a' - 52)) :
    (compare ((a : Int) - 52) (a' - 52)).then (compare m m') =
      compare (m * 2 ^ a) (m' * 2 ^ a') := by
  -- A greater exponent makes up for any difference of the mantissas.
  have hless : ∀ {m m' a a' : Nat}, m < 2 * leastMantissa → leastMantissa ≤ m' → a < a' →
      m * 2 ^ a < m' * 2 ^ a' := by
    intro m m' a a' hm hm' ha
    calc m * 2 ^ a < 2 * leastMantissa * 2 ^ a := Nat.mul_lt_mul_of_pos_right hm (Nat.two_pow_pos a)
      _ = leastMantissa * 2 ^ (a + 1) := by ring
      _ ≤ m' * 2 ^ a' := Nat.mul_le_mul hm' (Nat.pow_le_pow_right (by decide) ha)
  rcases lt_trichotomy a a' with hlt | rfl | hgt
  · rw [compare_lt_iff_lt.mpr (hless h.lt h'.least hlt), compare_lt_iff_lt.mpr (by omega)]
    rfl
  · have hpos : 0 < 2 ^ a := Nat.two_pow_pos a
    rw [compare_eq_iff_eq.mpr rfl, Ordering.eq_then]
    simp only [Nat.compare_eq_ite_lt, Nat.mul_lt_mul_right hpos]
  · rw [compare_gt_iff_gt.mpr (hless h'.lt h.least hgt), compare_gt_iff_gt.mpr (by omega)]
    rfl

theorem compare_of_value {m m' n n' a a' : Nat} (h : IsNormal m (a - 52))
    (h' : IsNormal m' (a' - 52)) (hn : m * 2 ^ a = n * 2 ^ 52) (hn' : m' * 2 ^ a' = n' * 2 ^ 52) :
    (compare ((a : Int) - 52) (a' - 52)).then (compare m m') = compare n n' := by
  rw [compare_isNormal h h', hn, hn']
  simp only [Nat.compare_eq_ite_lt, Nat.mul_lt_mul_right (Nat.two_pow_pos 52)]

theorem pos_of_value {m n a : Nat} (hm : 0 < m) (hn : m * 2 ^ a = n * 2 ^ 52) : 0 < n := by
  have hpos : 0 < n * 2 ^ 52 := hn ▸ Nat.mul_pos hm (Nat.two_pow_pos a)
  exact Nat.pos_of_mul_pos_right hpos

theorem compare_natCast (m n : Nat) : compare (m : Int) n = compare m n := by
  rcases lt_trichotomy m n with hlt | rfl | hgt
  · rw [compare_lt_iff_lt.mpr hlt, compare_lt_iff_lt.mpr (by omega)]
  · rw [compare_eq_iff_eq.mpr rfl, compare_eq_iff_eq.mpr rfl]
  · rw [compare_gt_iff_gt.mpr hgt, compare_gt_iff_gt.mpr (by omega)]

theorem compare_neg_natCast (m n : Nat) : compare (-m : Int) (-n) = (compare m n).swap := by
  rcases lt_trichotomy m n with hlt | rfl | hgt
  · rw [compare_lt_iff_lt.mpr hlt, compare_gt_iff_gt.mpr (by omega)]
    rfl
  · rw [compare_eq_iff_eq.mpr rfl, compare_eq_iff_eq.mpr rfl]
    rfl
  · rw [compare_gt_iff_gt.mpr hgt, compare_lt_iff_lt.mpr (by omega)]
    rfl

/-- What floats stand for compares as the floats do. -/
theorem StandsFor.compare_eq {u u' : UnpackedFloat} {v v' : Int} (h : StandsFor u v)
    (h' : StandsFor u' v') : u.compare u' = some (compare v v') := by
  cases h with
  | zero sign =>
    cases h' with
    | zero sign' => rfl
    | @positive m' a' n' hpos' normal' value' =>
      have hn' := pos_of_value hpos' value'
      rw [compare_lt_iff_lt.mpr (by omega)]
      rfl
    | @negative m' a' n' hpos' normal' value' =>
      have hn' := pos_of_value hpos' value'
      rw [compare_gt_iff_gt.mpr (by omega)]
      rfl
  | @positive m a n hpos normal value =>
    have hn := pos_of_value hpos value
    cases h' with
    | zero sign' =>
      rw [compare_gt_iff_gt.mpr (by omega)]
      rfl
    | @positive m' a' n' hpos' normal' value' =>
      rw [UnpackedFloat.compare, compare_of_value normal normal' value value',
        compare_natCast]
    | @negative m' a' n' hpos' normal' value' =>
      have hn' := pos_of_value hpos' value'
      rw [compare_gt_iff_gt.mpr (by omega)]
      rfl
  | @negative m a n hpos normal value =>
    have hn := pos_of_value hpos value
    cases h' with
    | zero sign' =>
      rw [compare_lt_iff_lt.mpr (by omega)]
      rfl
    | @positive m' a' n' hpos' normal' value' =>
      have hn' := pos_of_value hpos' value'
      rw [compare_lt_iff_lt.mpr (by omega)]
      rfl
    | @negative m' a' n' hpos' normal' value' =>
      rw [UnpackedFloat.compare, compare_of_value normal normal' value value',
        compare_neg_natCast]

theorem lt_iff_compare (x y : Float) :
    x < y ↔ x.toModel.unpack.compare y.toModel.unpack = some .lt := by
  change decide (x.toModel < y.toModel) = true ↔ _
  rw [decide_eq_true_eq]
  exact beq_iff_eq

/-- Floats of integers that are not huge compare as the rounded integers do. -/
theorem ofInt_lt_iff {a b : Int} (ha : a.natAbs.log2 ≤ 1022) (hb : b.natAbs.log2 ≤ 1022) :
    Float.ofInt a < Float.ofInt b ↔ rounded a < rounded b := by
  rw [lt_iff_compare, (standsFor_ofInt ha).compare_eq (standsFor_ofInt hb), Option.some_inj,
    compare_lt_iff_lt]

end Reshape.Number
