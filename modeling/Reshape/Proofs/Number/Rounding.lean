import Mathlib
import Reshape.Number.Binary
/-!
# The float of a large integer

An integer with more binary digits than a mantissa is cut down to its leading 53 and rounded. The
float has a mantissa of full length, so it does not lie below the power of two that the integer
starts with.
-/
namespace Reshape.Number

open Float.Model (Format UnpackedFloat totalExponent)
open Float.Model.UnpackedFloat

/-! ## Rounded quotients -/

/-- Rounding keeps the whole part of a quotient or takes the next. -/
theorem roundedQuotient_bounds (num den : Nat) :
    num / den ≤ roundedQuotient num den ∧ roundedQuotient num den ≤ num / den + 1 := by
  rw [roundedQuotient]
  split <;> omega

@[simp] theorem roundedQuotient_one (num : Nat) : roundedQuotient num 1 = num := by
  rw [roundedQuotient, Nat.mod_one, Nat.div_one]
  rfl

theorem roundedQuotient_mul_mul_right {m : Nat} (hm : 0 < m) (num den : Nat) :
    roundedQuotient (num * m) (den * m) = roundedQuotient num den := by
  have hless : den * m < 2 * (num % den * m) ↔ den < 2 * (num % den) := by
    rw [← Nat.mul_assoc]
    exact Nat.mul_lt_mul_right hm
  have hhalf : 2 * (num % den * m) = den * m ↔ 2 * (num % den) = den := by
    rw [← Nat.mul_assoc]
    exact Nat.mul_left_inj hm.ne'
  rw [roundedQuotient, roundedQuotient, Nat.mul_div_mul_right _ _ hm, Nat.mul_mod_mul_right]
  simp only [Bool.or_eq_true, decide_eq_true_eq, Bool.and_eq_true, beq_iff_eq, hless, hhalf]

theorem roundedQuotient_mul_self {den : Nat} (hden : 0 < den) (m : Nat) :
    roundedQuotient (m * den) den = m := by
  have hscaled := roundedQuotient_mul_mul_right hden m 1
  rwa [Nat.one_mul, roundedQuotient_one] at hscaled

theorem roundedQuotient_mono {num num' : Nat} (den : Nat) (h : num ≤ num') :
    roundedQuotient num den ≤ roundedQuotient num' den := by
  have hwhole : num / den ≤ num' / den := Nat.div_le_div_right h
  rcases Nat.lt_or_eq_of_le hwhole with hlt | heq
  · have hhigh := (roundedQuotient_bounds num den).2
    have hlow := (roundedQuotient_bounds num' den).1
    omega
  · have hrest : num % den ≤ num' % den := by
      have hnum := Nat.div_add_mod num den
      have hnum' := Nat.div_add_mod num' den
      rw [← heq] at hnum'
      omega
    rw [roundedQuotient, roundedQuotient, heq]
    simp only [Bool.or_eq_true, decide_eq_true_eq, Bool.and_eq_true, beq_iff_eq]
    split <;> split <;> omega

/-! ## Rounding a mantissa -/

theorem ne_zero_of_log2 {n k : Nat} (hlog : n.log2 = 52 + k) : n ≠ 0 := by
  rintro rfl
  rw [Nat.log2_zero] at hlog
  omega

/-- A mantissa without its last `k` digits. Two bits remember what was cut off. -/
def cut (mantissa k : Nat) : ExtendedMantissa :=
  (⟨mantissa, false, false⟩ : ExtendedMantissa) >>> k

/-- What an accuracy says of the rest of a division. -/
def Tells (rest den : Nat) : Accuracy → Prop
  | .exact => rest = 0
  | .inexact .lt => 0 < rest ∧ 2 * rest < den
  | .inexact .eq => 0 < rest ∧ 2 * rest = den
  | .inexact .gt => den < 2 * rest

/-- A mantissa is the whole part of a fraction, and its two bits tell the rest. -/
structure IsQuotient (em : ExtendedMantissa) (num den : Nat) : Prop where
  mantissa : em.mantissa = num / den
  rest : Tells (num % den) den em.accuracy

theorem IsQuotient.shiftRightOne {em : ExtendedMantissa} {num den : Nat} (hden : 0 < den)
    (h : IsQuotient em num den) : IsQuotient em.shiftRightOne num (den * 2) := by
  obtain ⟨mantissa, round, sticky⟩ := em
  obtain ⟨hmantissa, hrest⟩ := h
  have hlt : num % den < den := Nat.mod_lt num hden
  have hmod : num % (den * 2) = num % den + den * (mantissa % 2) := by
    rw [Nat.mod_mul, ← hmantissa]
  have hbits : (round || sticky) = false ∧ num % den = 0 ∨
      (round || sticky) = true ∧ 0 < num % den := by
    cases round <;> cases sticky <;> simp only [ExtendedMantissa.accuracy, Tells] at hrest
    · exact .inl ⟨rfl, hrest⟩
    all_goals exact .inr ⟨rfl, by omega⟩
  refine ⟨?_, ?_⟩
  · rw [← Nat.div_div_eq_div_mul, ← hmantissa]
    rfl
  · -- The digit that is cut off next is the half, all that was cut off before is less.
    change Tells _ _ (ExtendedMantissa.accuracy ⟨_, mantissa % 2 != 0, round || sticky⟩)
    rw [hmod]
    rcases Nat.mod_two_eq_zero_or_one mantissa with hdigit | hdigit <;>
      rcases hbits with ⟨hb, hr⟩ | ⟨hb, hr⟩ <;> rw [hdigit, hb]
    · exact hr
    · change 0 < _ ∧ _
      omega
    · change 0 < _ ∧ _
      omega
    · change _ < _
      omega

theorem cut_isQuotient (mantissa k : Nat) : IsQuotient (cut mantissa k) mantissa (2 ^ k) := by
  change IsQuotient (k.repeat ExtendedMantissa.shiftRightOne ⟨mantissa, false, false⟩) _ _
  induction k with
  | zero => exact ⟨(Nat.div_one mantissa).symm, Nat.mod_one mantissa⟩
  | succ k ih => exact ih.shiftRightOne (Nat.two_pow_pos k)

@[simp] theorem cut_mantissa (mantissa k : Nat) : (cut mantissa k).mantissa = mantissa / 2 ^ k :=
  (cut_isQuotient mantissa k).mantissa

/-- Rounding the mantissa rounds the fraction. -/
theorem IsQuotient.roundedMantissa {em : ExtendedMantissa} {num den : Nat} (hden : 0 < den)
    (h : IsQuotient em num den) : em.roundedMantissa = roundedQuotient num den := by
  obtain ⟨hmantissa, hrest⟩ := h
  rw [ExtendedMantissa.roundedMantissa, hmantissa, roundedQuotient]
  simp only [Bool.or_eq_true, decide_eq_true_eq, Bool.and_eq_true, beq_iff_eq]
  cases hacc : em.accuracy with
  | exact =>
    rw [hacc, Tells] at hrest
    rw [if_neg (by omega), Accuracy.roundToNearestEven]
  | inexact side =>
    rw [hacc] at hrest
    cases side with
    | lt =>
      rw [Tells] at hrest
      rw [if_neg (by omega), Accuracy.roundToNearestEven]
    | eq =>
      rw [Tells] at hrest
      rw [Accuracy.roundToNearestEven]
      split <;> omega
    | gt =>
      rw [Tells] at hrest
      rw [if_pos (by omega), Accuracy.roundToNearestEven]

/-- A mantissa with `k` digits too many loses them. -/
theorem shiftToTargetExponent_of_log2 {mantissa k : Nat} {exponent : Int}
    (hlog : mantissa.log2 = 52 + k) (he : -1074 ≤ exponent + k) :
    shiftToTargetExponent Format.binary64 mantissa exponent .exact =
      (cut mantissa k, exponent + k) := by
  have hplace :
      Format.binary64.targetExponent (totalExponent mantissa exponent) = exponent + k := by
    simp only [Format.targetExponent, totalExponent, hlog, Format.mantissaBits, Format.minExponent]
    omega
  have hk : (exponent + k - exponent).toNat = k := by omega
  rw [shiftToTargetExponent, hplace, shiftToExponent, hk]
  rfl

theorem leastMantissa_pos : 0 < leastMantissa := by decide

/-- A mantissa of full length, with an exponent of a float. -/
structure IsNormal (mantissa : Nat) (exponent : Int) : Prop where
  least : leastMantissa ≤ mantissa
  lt : mantissa < 2 * leastMantissa
  leastExponent : -1074 ≤ exponent
  le : exponent ≤ 971

/-- The leading digits of an integer have full length when they are rounded, or carry. -/
theorem roundedQuotient_of_log2 {n k : Nat} (hlog : n.log2 = 52 + k) :
    leastMantissa ≤ roundedQuotient n (2 ^ k) ∧
      roundedQuotient n (2 ^ k) ≤ 2 * leastMantissa := by
  obtain ⟨hlow, hhigh⟩ := (Nat.log2_eq_iff (ne_zero_of_log2 hlog)).mp hlog
  rw [Nat.pow_add] at hlow
  rw [Nat.add_right_comm, Nat.pow_add] at hhigh
  have hge : leastMantissa ≤ n / 2 ^ k :=
    (Nat.le_div_iff_mul_le (Nat.two_pow_pos k)).mpr hlow
  have hlt : n / 2 ^ k < 2 * leastMantissa :=
    (Nat.div_lt_iff_lt_mul (Nat.two_pow_pos k)).mpr hhigh
  obtain ⟨hkept, hnext⟩ := roundedQuotient_bounds n (2 ^ k)
  exact ⟨hge.trans hkept, hnext.trans hlt⟩

/-- Shifting once more takes a carry into the exponent. -/
theorem shiftToTargetExponent_carried {rounded : Nat} {exponent : Int}
    (hlow : leastMantissa ≤ rounded) (hhigh : rounded ≤ 2 * leastMantissa)
    (he : -1074 ≤ exponent) (he' : exponent ≤ 970) :
    ∃ (em : ExtendedMantissa) (a : Nat), em.mantissa * 2 ^ a = rounded ∧
      IsNormal em.mantissa (exponent + a) ∧
      shiftToTargetExponent Format.binary64 rounded exponent .exact = (em, exponent + a) := by
  have hne : rounded ≠ 0 := (leastMantissa_pos.trans_le hlow).ne'
  rcases Nat.lt_or_eq_of_le hhigh with hlt | rfl
  · have hlog : rounded.log2 = 52 + 0 := (Nat.log2_eq_iff hne).mpr ⟨hlow, hlt⟩
    have hsame : (cut rounded 0).mantissa = rounded := by
      rw [cut_mantissa, Nat.pow_zero, Nat.div_one]
    refine ⟨_, 0, ?_, ⟨?_, ?_, ?_, ?_⟩, shiftToTargetExponent_of_log2 hlog (by omega)⟩
    · rw [hsame, Nat.pow_zero, Nat.mul_one]
    · rwa [hsame]
    · rwa [hsame]
    all_goals omega
  · have hlog : (2 * leastMantissa).log2 = 52 + 1 := by decide
    have hhalf : (cut (2 * leastMantissa) 1).mantissa = leastMantissa := by
      rw [cut_mantissa]
      decide
    refine ⟨_, 1, ?_, ⟨?_, ?_, ?_, ?_⟩, shiftToTargetExponent_of_log2 hlog (by omega)⟩
    · rw [hhalf]
      decide
    · rw [hhalf]
    · rw [hhalf]
      decide
    all_goals omega

/-- Rounding gives a mantissa of full length that stands for the rounded leading digits. -/
theorem roundWithAccuracy_isNormal {mantissa k : Nat} {exponent : Int} (sign : Sign)
    (hlog : mantissa.log2 = 52 + k) (he : -1074 ≤ exponent + k) (he' : exponent + k ≤ 970) :
    ∃ (rounded a : Nat) (hpos : 0 < rounded),
      rounded * 2 ^ a = roundedQuotient mantissa (2 ^ k) ∧ IsNormal rounded (exponent + k + a) ∧
      roundWithAccuracy Format.binary64 sign mantissa exponent .exact =
        .finite sign rounded (exponent + k + a) hpos := by
  obtain ⟨hlow, hhigh⟩ := roundedQuotient_of_log2 hlog
  obtain ⟨em, a, hvalue, hnormal, hshift⟩ := shiftToTargetExponent_carried hlow hhigh he he'
  have hpos : 0 < em.mantissa := leastMantissa_pos.trans_le hnormal.least
  refine ⟨em.mantissa, a, hpos, hvalue, hnormal, ?_⟩
  rw [roundWithAccuracy, shiftToTargetExponent_of_log2 hlog he]
  dsimp only
  rw [(cut_isQuotient mantissa k).roundedMantissa (Nat.two_pow_pos k), hshift]
  exact dif_neg hpos.ne'

/-! ## The bits of a rounded number -/

section Packed

variable {mantissa : Nat} {exponent : Int} (hpos : 0 < mantissa) (h : IsNormal mantissa exponent)
include h

/-- A mantissa of full length is stored without the bit in front. -/
theorem pack_isNormal (sign : Sign) :
    pack Format.binary64 (.finite sign mantissa exponent hpos) =
      packComponents Format.binary64 sign (BitVec.ofNat _ (exponent + 1075).toNat)
        (BitVec.ofNat _ mantissa) := by
  have hlog : mantissa.log2 = 52 := (Nat.log2_eq_iff hpos.ne').mpr ⟨h.least, h.lt⟩
  have hbias : (exponent + Format.binary64.exponentBias +
      Format.binary64.mantissaBitsWithoutImplicit).toNat = (exponent + 1075).toNat := by
    rw [Int.add_assoc]
    rfl
  have hfits : ¬ 2 ^ Format.binary64.exponentBits ≤ (exponent + 1075).toNat + 1 := by
    have hle := h.le
    change ¬ 2048 ≤ _
    omega
  rw [pack, hbias]
  dsimp only
  rw [if_neg hfits, hlog]
  exact if_pos rfl

/-- The word of a positive number is its exponent and then its mantissa. -/
theorem toNat_pack_isNormal :
    (pack Format.binary64 (.finite .positive mantissa exponent hpos)).toNat =
      (exponent + 1075).toNat * leastMantissa + (mantissa - leastMantissa) := by
  obtain ⟨hleast, hlt, hlow, hhigh⟩ := h
  have hexponent : (exponent + 1075).toNat % 2 ^ 11 = (exponent + 1075).toNat :=
    Nat.mod_eq_of_lt (by omega)
  have hmantissa : mantissa % 2 ^ 52 = mantissa - leastMantissa := by
    rw [leastMantissa] at hleast hlt ⊢
    omega
  have hstored : mantissa % 2 ^ 52 < 2 ^ 52 := Nat.mod_lt _ (by decide)
  rw [pack_isNormal hpos ⟨hleast, hlt, hlow, hhigh⟩, packComponents, BitVec.toNat_append,
    BitVec.toNat_append, BitVec.toNat_ofNat, BitVec.toNat_ofNat]
  change (0 <<< 11 ||| (exponent + 1075).toNat % 2 ^ 11) <<< 52 ||| mantissa % 2 ^ 52 = _
  rw [Nat.zero_shiftLeft, Nat.zero_or, ← Nat.shiftLeft_add_eq_or_of_lt hstored, hexponent,
    hmantissa, Nat.shiftLeft_eq]
  rfl

/-- The parts of a float that was packed are read back. -/
theorem ofFloat_isNormal :
    Binary.ofFloat (.ofModel (.pack (.finite .positive mantissa exponent hpos))) =
      ⟨false, mantissa, exponent⟩ := by
  have hbits := toNat_pack_isNormal hpos h
  obtain ⟨hleast, hlt, hlow, hhigh⟩ := h
  have hword : (Float.ofModel (.pack (.finite .positive mantissa exponent hpos))).toBits.toNat =
      (exponent + 1075).toNat * leastMantissa + (mantissa - leastMantissa) := hbits
  have hexponent : ((exponent + 1075).toNat * leastMantissa + (mantissa - leastMantissa)) /
      leastMantissa % 2048 = (exponent + 1075).toNat := by
    rw [leastMantissa] at hleast hlt ⊢
    omega
  have hmantissa : ((exponent + 1075).toNat * leastMantissa + (mantissa - leastMantissa)) %
      leastMantissa = mantissa - leastMantissa := by
    rw [leastMantissa] at hleast hlt ⊢
    omega
  have hpositive : ¬ signBit ≤ (exponent + 1075).toNat * leastMantissa +
      (mantissa - leastMantissa) := by
    rw [signBit]
    rw [leastMantissa] at hleast hlt ⊢
    omega
  have hplace : ((exponent + 1075).toNat : Int) - 1075 = exponent := by omega
  rw [Binary.ofFloat, hword, hexponent, hmantissa, hplace, if_neg (by omega),
    decide_eq_false hpositive, Nat.add_sub_cancel' hleast]

/-- A number with a mantissa of full length is read back from its bits. -/
theorem unpack_pack_isNormal (sign : Sign) :
    unpack Format.binary64 (pack Format.binary64 (.finite sign mantissa exponent hpos)) =
      .finite sign mantissa exponent hpos := by
  obtain ⟨hleast, hlt, hlow, hhigh⟩ := h
  let stored := BitVec.ofNat Format.binary64.exponentBits (exponent + 1075).toNat
  let digits := BitVec.ofNat Format.binary64.mantissaBitsWithoutImplicit mantissa
  have hstored : stored.toNat = (exponent + 1075).toNat := by
    rw [BitVec.toNat_ofNat]
    exact Nat.mod_eq_of_lt (Nat.lt_of_lt_of_le (by omega : _ < 2047) (by decide))
  have hdigits : digits.toNat = mantissa - leastMantissa := by
    rw [BitVec.toNat_ofNat]
    change mantissa % 4503599627370496 = _
    rw [leastMantissa] at hleast hlt ⊢
    omega
  have hinf : stored ≠ -1#_ := by
    intro heq
    have hnat : (exponent + 1075).toNat = 2047 := hstored.symm.trans (congrArg BitVec.toNat heq)
    omega
  have hzero : stored ≠ 0#_ := by
    intro heq
    have hnat : (exponent + 1075).toNat = 0 := hstored.symm.trans (congrArg BitVec.toNat heq)
    omega
  have hmantissa : (1#1 ++ digits).toNat = mantissa := by
    rw [BitVec.toNat_append, ← Nat.shiftLeft_add_eq_or_of_lt digits.isLt, hdigits]
    exact Nat.add_sub_cancel' hleast
  have hexponent : (stored.toNat : Int) -
      (Format.binary64.exponentBias + Format.binary64.mantissaBitsWithoutImplicit) = exponent := by
    rw [hstored]
    change _ - (1075 : Int) = _
    omega
  rw [pack_isNormal hpos ⟨hleast, hlt, hlow, hhigh⟩, unpack]
  simp only [unpackMantissa_packComponents, unpackExponent_packComponents,
    unpackSign_packComponents]
  rw [if_neg hinf, if_neg hzero]
  simp only [UnpackedFloat.finite.injEq]
  refine ⟨?_, hmantissa, hexponent⟩
  cases sign <;> rfl

/-- A number that was rounded is finite. -/
theorem isFinite_isNormal :
    (Float.ofModel (.pack (.finite .positive mantissa exponent hpos))).isNaN = false ∧
      (Float.ofModel (.pack (.finite .positive mantissa exponent hpos))).isInf = false := by
  change (unpack Format.binary64 (pack Format.binary64
      (.finite .positive mantissa exponent hpos))).isNaN = false ∧
    (unpack Format.binary64 (pack Format.binary64
      (.finite .positive mantissa exponent hpos))).isInf = false
  rw [unpack_pack_isNormal hpos h]
  exact ⟨rfl, rfl⟩

end Packed

/-! ## Integers -/

theorem log2_shiftLeft {n : Nat} (hne : n ≠ 0) (amount : Nat) :
    (n <<< amount).log2 = n.log2 + amount := by
  induction amount with
  | zero => rfl
  | succ amount ih =>
    have hmore : n <<< amount ≠ 0 := by
      rw [Nat.shiftLeft_eq]
      exact Nat.mul_ne_zero hne (Nat.two_pow_pos amount).ne'
    rw [Nat.shiftLeft_succ, Nat.log2_two_mul hmore, ih, Nat.add_assoc]

/-- The float of an integer with `k` more digits than a mantissa is positive, with a mantissa of
full length that stands for the rounded leading digits. -/
theorem ofNat_isNormal {n k : Nat} (hlog : n.log2 = 52 + k) (hk : 0 < k) (hk' : k ≤ 970) :
    ∃ (mantissa a : Nat) (hpos : 0 < mantissa),
      mantissa * 2 ^ a = roundedQuotient n (2 ^ k) ∧ IsNormal mantissa (k + a) ∧
      Float.ofNat n = .ofModel (.pack (.finite .positive mantissa (k + a) hpos)) := by
  have hne : n ≠ 0 := ne_zero_of_log2 hlog
  have hlarge : ¬ n < 2 ^ 53 := by
    rw [← Nat.log2_lt hne]
    omega
  have hshifted : (n <<< 53 * 10 ^ 0).log2 = 52 + (k + 53) := by
    rw [Nat.pow_zero, Nat.mul_one, log2_shiftLeft hne, hlog, Nat.add_assoc]
  have hsame : roundedQuotient (n <<< 53 * 10 ^ 0) (2 ^ (k + 53)) = roundedQuotient n (2 ^ k) := by
    rw [Nat.pow_zero, Nat.mul_one, Nat.shiftLeft_eq, Nat.pow_add,
      roundedQuotient_mul_mul_right (Nat.two_pow_pos 53)]
  obtain ⟨mantissa, a, hpos, hvalue, hnormal, hround⟩ :=
    @roundWithAccuracy_isNormal _ _ (-53 + 0) .positive hshifted (by omega) (by omega)
  have hplace : (-53 + 0 : Int) + (k + 53 : Nat) = k := by omega
  rw [hplace] at hnormal hround
  refine ⟨mantissa, a, hpos, hvalue.trans hsame, hnormal, ?_⟩
  have hmodel : Float.ofNat n = .ofModel (.pack (ofScientific Format.binary64 n 0)) := by
    change Float.ofScientific n false 0 = _
    rw [Float.ofScientific, dif_neg fun hsmall => hlarge hsmall.1]
    rfl
  have hnear : ¬ (0 : Int) < -((2 ^ Format.binary64.exponentBits : Int) + n.log2) := by
    change ¬ (0 : Int) < -(2048 + _)
    omega
  rw [hmodel, ofScientific, dif_neg hne, if_neg (by decide), if_neg hnear, if_pos le_rfl]
  exact congrArg (Float.ofModel ∘ .pack) hround

/-- What a large integer becomes is not below a bound that the power of two at its start reaches. -/
theorem truncateWithin_ofNat {n k : Nat} {lo hi : Int} (hlog : n.log2 = 52 + k) (hk : 0 < k)
    (hk' : k ≤ 970) (hbounds : lo ≤ hi) (hhi : hi ≤ 2 ^ (52 + k)) :
    truncateWithin lo hi (Float.ofNat n) = hi := by
  obtain ⟨mantissa, a, hpos, -, hnormal, hfloat⟩ := ofNat_isNormal hlog hk hk'
  obtain ⟨hnan, hinf⟩ := isFinite_isNormal hpos hnormal
  have hreach : hi ≤ (⟨false, mantissa, k + a⟩ : Binary).truncate := by
    have hle : 2 ^ (52 + k) ≤ mantissa * 2 ^ (k + a) := by
      rw [Nat.pow_add]
      exact Nat.mul_le_mul hnormal.least (Nat.pow_le_pow_right (by decide) (Nat.le_add_right k a))
    have hnonneg : (0 : Int) ≤ k + a := by omega
    have htruncate : (⟨false, mantissa, k + a⟩ : Binary).truncate =
        ((mantissa * 2 ^ (k + a) : Nat) : Int) := by
      rw [Binary.truncate, if_neg Bool.false_ne_true, if_pos hnonneg]
      rfl
    rw [htruncate]
    exact hhi.trans (by exact_mod_cast hle)
  rw [truncateWithin, hfloat, hnan, hinf, ofFloat_isNormal hpos hnormal, min_eq_left hreach,
    max_eq_right hbounds]
  rfl

end Reshape.Number
