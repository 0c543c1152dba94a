import ScopeScript.Proofs.Decimal.Rounding

/-!
# The number nearest to a value

Products and quotients of numbers are computed with some bits more than needed and then rounded.
What comes out depends on the exact value alone: it is the value in units of its last place,
rounded to the nearest integer, halves to the even one (`nearest`). A decimal is converted by a
product or quotient with a power of ten, so the number that is made of it is the nearest one
(`ofScientific_eq_nearest`), and a number is nearest to its own value (`nearest_of_fits`).
-/

namespace ScopeScript
namespace Binary64

open Float.Model.UnpackedFloat
open Float.Model (UnpackedFloat Format totalExponent)

/-- The place of the last of the 53 bits of a positive value. No number has bits in a smaller place
than the least one. -/
def leastPlace (x : ℚ) : ℤ :=
  max (Int.log 2 x - 52) leastExponent

/-- A multiple of `2 ^ target` as a number. Rounding may have given the mantissa one bit too
many. -/
def settled (mantissa : ℕ) (target : ℤ) : UnpackedFloat :=
  let (extended, exponent) := shiftToTargetExponent Format.binary64 mantissa target .exact
  if zero : extended.mantissa = 0 then .zero .positive
  else .finite .positive extended.mantissa exponent (Nat.pos_of_ne_zero zero)

/-- The number nearest to a positive value. -/
def nearest (x : ℚ) : UnpackedFloat :=
  settled (nearestEven (x / 2 ^ leastPlace x)).toNat (leastPlace x)

/-! ## Rounding -/

variable {x : ℚ} {mantissa : ℕ} {exponent : ℤ}

/-- A logarithm is told by the two powers around the value. -/
theorem log_of_bounds {base : ℕ} (large : 1 < base) {place : ℤ} (lower : (base : ℚ) ^ place ≤ x)
    (upper : x < (base : ℚ) ^ (place + 1)) : Int.log base x = place := by
  have positive : 0 < x := lt_of_lt_of_le (by positivity) lower
  have least := (Int.zpow_le_iff_le_log large positive).1 lower
  have most := (Int.lt_zpow_iff_log_lt large positive).1 upper
  omega

/-- The integer part of a value in some unit shows how many bits the value has. -/
theorem log_of_floor (floor : ⌊x / 2 ^ exponent⌋ = mantissa) (positive : 0 < mantissa) :
    Int.log 2 x = mantissa.log2 + exponent := by
  obtain ⟨lower, upper⟩ := Int.floor_eq_iff.1 floor
  have unit : (0 : ℚ) < 2 ^ exponent := by positivity
  have two : (2 : ℚ) ≠ 0 := by norm_num
  rw [le_div_iff₀ unit] at lower
  rw [div_lt_iff₀ unit] at upper
  refine log_of_bounds one_lt_two ?_ ?_ <;> rw [Nat.cast_ofNat]
  · have bits : (2 : ℚ) ^ (mantissa.log2 : ℤ) ≤ mantissa := by
      exact_mod_cast Nat.log2_self_le positive.ne'
    rw [zpow_add₀ two]
    exact (mul_le_mul_of_nonneg_right bits unit.le).trans (by exact_mod_cast lower)
  · have bits : (mantissa : ℚ) + 1 ≤ 2 ^ (mantissa.log2 + 1 : ℤ) := by
      exact_mod_cast Nat.lt_log2_self
    rw [add_right_comm, zpow_add₀ two]
    exact lt_of_lt_of_le (by exact_mod_cast upper) (mul_le_mul_of_nonneg_right bits unit.le)

/-- A value below its unit has a smaller logarithm. -/
theorem log_lt_of_floor (floor : ⌊x / 2 ^ exponent⌋ = 0) (positive : 0 < x) :
    Int.log 2 x < exponent := by
  have upper := (Int.floor_eq_zero_iff.1 floor).2
  rw [div_lt_one (by positivity)] at upper
  exact (Int.lt_zpow_iff_log_lt one_lt_two positive).1 (by exact_mod_cast upper)

/-- A value that is known to the last place at least is rounded to the nearest number. -/
theorem roundWithAccuracy_eq_nearest {accuracy : Accuracy}
    (stands : Stands (.ofMantissaAndAccuracy mantissa accuracy) (x / 2 ^ exponent))
    (positive : 0 < x) (fine : exponent ≤ leastPlace x) :
    roundWithAccuracy Format.binary64 .positive mantissa exponent accuracy = nearest x := by
  have isMantissa : (ExtendedMantissa.ofMantissaAndAccuracy mantissa accuracy).mantissa =
      mantissa := by
    rcases accuracy with _ | _ | _ | _ <;> rfl
  have floor := stands.floor
  rw [isMantissa] at floor
  obtain ⟨count, isCount⟩ : ∃ count : ℕ,
      (Format.binary64.targetExponent (totalExponent mantissa exponent) - exponent).toNat = count :=
    ⟨_, rfl⟩
  have target : exponent + count = leastPlace x := by
    rw [targetExponent_eq, totalExponent] at isCount
    unfold leastPlace leastExponent at *
    rcases Nat.eq_zero_or_pos mantissa with rfl | some
    · have small := log_lt_of_floor floor positive
      rw [Nat.log2_zero] at isCount
      omega
    · have bits := log_of_floor floor some
      omega
  have shifted := stands.shiftRight count
  rw [div_div, ← zpow_natCast, ← zpow_add₀ two_ne_zero, target] at shifted
  have unfolded : roundWithAccuracy Format.binary64 .positive mantissa exponent accuracy =
      settled (ExtendedMantissa.ofMantissaAndAccuracy mantissa accuracy >>> count).roundedMantissa
        (exponent + count) := by
    rw [← isCount]
    rfl
  rw [unfolded, target, nearest, ← shifted.roundedMantissa, Int.toNat_natCast]

/-! ## Products and quotients -/

section

variable {left right : ℕ} {leftExponent rightExponent : ℤ}

/-- A product is the number nearest to the exact one. -/
theorem mul_eq_nearest (leftPositive : 0 < left) (rightPositive : 0 < right)
    (same : (left : ℚ) * 2 ^ leftExponent * (right * 2 ^ rightExponent) = x)
    (fine : leftExponent + rightExponent ≤ leastPlace x) :
    mul Format.binary64 (.finite .positive left leftExponent leftPositive)
      (.finite .positive right rightExponent rightPositive) = nearest x := by
  have positive : 0 < x := by
    rw [← same]
    positivity
  refine roundWithAccuracy_eq_nearest ?_ positive fine
  have scaled : x / 2 ^ (leftExponent + rightExponent) = (left * right : ℕ) := by
    rw [← same, zpow_add₀ two_ne_zero]
    push_cast
    field_simp
  rw [scaled]
  exact Stands.exact _

/-- The remainder of a division says where the quotient stands. -/
theorem stands_div (dividend : ℕ) {divisor : ℕ} (positive : 0 < divisor) :
    Stands (.ofMantissaAndAccuracy (dividend / divisor)
      (accuracyOfFraction (dividend % divisor) divisor)) (dividend / divisor) := by
  have scale : (0 : ℚ) < divisor := by exact_mod_cast positive
  have split : (dividend : ℚ) / divisor =
      (dividend / divisor : ℕ) + (dividend % divisor : ℕ) / divisor := by
    have whole : (divisor : ℚ) * (dividend / divisor : ℕ) + (dividend % divisor : ℕ) =
        dividend := by
      exact_mod_cast Nat.div_add_mod dividend divisor
    rw [← whole]
    field_simp
  have below : ((dividend % divisor : ℕ) : ℚ) / divisor < 1 := by
    rw [div_lt_one scale]
    exact_mod_cast Nat.mod_lt dividend positive
  rw [split, accuracyOfFraction]
  generalize dividend % divisor = rest at below ⊢
  generalize dividend / divisor = quotient
  have half : (rest : ℚ) / divisor - 1 / 2 = (2 * rest - divisor) / (2 * divisor) := by
    field_simp
  split
  · next zero =>
    simp [zero, Stands, ExtendedMantissa.ofMantissaAndAccuracy]
  · next some =>
    have above : (0 : ℚ) < rest / divisor :=
      div_pos (by exact_mod_cast Nat.pos_of_ne_zero some) scale
    rcases lt_trichotomy (2 * rest) divisor with less | equal | greater
    · have distance : (rest : ℚ) / divisor - 1 / 2 < 0 := by
        rw [half]
        exact div_neg_of_neg_of_pos (sub_neg.2 (by exact_mod_cast less)) (by positivity)
      rw [Nat.compare_eq_lt.2 less]
      change (quotient : ℚ) < quotient + rest / divisor ∧
        (quotient : ℚ) + rest / divisor < quotient + 1 / 2
      constructor <;> linarith only [above, distance]
    · have distance : (rest : ℚ) / divisor - 1 / 2 = 0 := by
        rw [half, ← equal]
        simp
      rw [Nat.compare_eq_eq.2 equal]
      change (quotient : ℚ) + rest / divisor = quotient + 1 / 2
      linarith only [distance]
    · have distance : 0 < (rest : ℚ) / divisor - 1 / 2 := by
        rw [half]
        exact div_pos (sub_pos.2 (by exact_mod_cast greater)) (by positivity)
      rw [Nat.compare_eq_gt.2 greater]
      change (quotient : ℚ) + 1 / 2 < quotient + rest / divisor ∧
        (quotient : ℚ) + rest / divisor < quotient + 1
      constructor <;> linarith only [distance, below]

/-- A quotient is the number nearest to the exact one: the digits that are computed and the
remainder say on which side of the middle it is. -/
theorem div_eq_nearest (leftPositive : 0 < left) (rightPositive : 0 < right) :
    div Format.binary64 (.finite .positive left leftExponent leftPositive)
        (.finite .positive right rightExponent rightPositive) =
      nearest ((left : ℚ) * 2 ^ leftExponent / (right * 2 ^ rightExponent)) := by
  generalize same : (left : ℚ) * 2 ^ leftExponent / (right * 2 ^ rightExponent) = x
  have positive : 0 < x := by
    rw [← same]
    positivity
  -- The quotient has at least as many bits as the difference of the numbers of bits, less one.
  have bits : (left.log2 + leftExponent) - (right.log2 + rightExponent) - 1 ≤ Int.log 2 x := by
    have lower : (2 : ℚ) ^ (left.log2 : ℤ) ≤ left := by
      exact_mod_cast Nat.log2_self_le leftPositive.ne'
    have upper : (right : ℚ) ≤ 2 ^ (right.log2 + 1 : ℤ) := by
      exact_mod_cast Nat.lt_log2_self.le
    refine (Int.zpow_le_iff_le_log one_lt_two positive).1 ?_
    rw [← same, Nat.cast_ofNat, le_div_iff₀ (by positivity)]
    calc (2 : ℚ) ^ ((left.log2 + leftExponent) - (right.log2 + rightExponent) - 1) *
          (right * 2 ^ rightExponent)
        ≤ 2 ^ ((left.log2 + leftExponent) - (right.log2 + rightExponent) - 1) *
          (2 ^ (right.log2 + 1 : ℤ) * 2 ^ rightExponent) := by gcongr
      _ = 2 ^ (left.log2 : ℤ) * 2 ^ leftExponent := by
          rw [← zpow_add₀ two_ne_zero, ← zpow_add₀ two_ne_zero, ← zpow_add₀ two_ne_zero]
          congr 1
          ring
      _ ≤ left * 2 ^ leftExponent := by gcongr
  obtain ⟨target, isTarget⟩ : ∃ target, min (leftExponent - rightExponent)
      (Format.binary64.targetExponent
        (totalExponent left leftExponent - totalExponent right rightExponent)) = target :=
    ⟨_, rfl⟩
  obtain ⟨count, isCount⟩ : ∃ count : ℕ, leftExponent - rightExponent - target = count :=
    ⟨(leftExponent - rightExponent - target).toNat, by omega⟩
  have divided : div Format.binary64 (.finite .positive left leftExponent leftPositive)
      (.finite .positive right rightExponent rightPositive) =
        roundWithAccuracy Format.binary64 .positive ((left <<< count) / right) target
          (accuracyOfFraction ((left <<< count) % right) right) := by
    rw [← Int.toNat_natCast count, ← isCount, ← isTarget]
    rfl
  rw [divided]
  refine roundWithAccuracy_eq_nearest ?_ positive ?_
  · have scaled : x / 2 ^ target = ((left <<< count : ℕ) : ℚ) / right := by
      rw [← same, Nat.shiftLeft_eq, Nat.cast_mul, Nat.cast_pow, Nat.cast_ofNat, ← zpow_natCast,
        ← isCount, zpow_sub₀ two_ne_zero, zpow_sub₀ two_ne_zero]
      field_simp
    rw [scaled]
    exact stands_div _ rightPositive
  · rw [targetExponent_eq, totalExponent, totalExponent] at isTarget
    unfold leastPlace leastExponent
    omega

end

/-- A product has at most one bit more than its factors. -/
theorem log_of_product {left right : ℕ} (leftPositive : 0 < left) (rightPositive : 0 < right)
    (exponent : ℤ) :
    left.log2 + right.log2 + exponent ≤ Int.log 2 ((left * right : ℚ) * 2 ^ exponent) := by
  have lower : (2 : ℚ) ^ (left.log2 : ℤ) ≤ left := by
    exact_mod_cast Nat.log2_self_le leftPositive.ne'
  have otherLower : (2 : ℚ) ^ (right.log2 : ℤ) ≤ right := by
    exact_mod_cast Nat.log2_self_le rightPositive.ne'
  refine (Int.zpow_le_iff_le_log one_lt_two (by positivity)).1 ?_
  rw [Nat.cast_ofNat, zpow_add₀ two_ne_zero, zpow_add₀ two_ne_zero]
  gcongr

namespace IsNormal

variable {first second : Float} {magnitude other : ℚ}

/-- A product of two numbers in normal form is the one nearest to the product of their values. -/
theorem mul_eq_nearest (normal : IsNormal first .positive magnitude)
    (otherNormal : IsNormal second .positive other) :
    first * second = .ofModel (.pack (nearest (magnitude * other))) := by
  obtain ⟨left, leftExponent, leftPositive, unpacked, leftLower, -, -, -, rfl⟩ := normal
  obtain ⟨right, rightExponent, rightPositive, otherUnpacked, rightLower, -, -, -, rfl⟩ :=
    otherNormal
  change Float.ofModel (.pack (mul Format.binary64 _ _)) = _
  rw [unpacked, otherUnpacked, Binary64.mul_eq_nearest leftPositive rightPositive rfl]
  have leftBits : 52 ≤ left.log2 := (Nat.le_log2 leftPositive.ne').2 leftLower
  have rightBits : 52 ≤ right.log2 := (Nat.le_log2 rightPositive.ne').2 rightLower
  have bits := log_of_product leftPositive rightPositive (leftExponent + rightExponent)
  have same : (left : ℚ) * right * 2 ^ (leftExponent + rightExponent) =
      left * 2 ^ leftExponent * (right * 2 ^ rightExponent) := by
    rw [zpow_add₀ two_ne_zero]
    ring
  rw [same] at bits
  unfold leastPlace
  omega

/-- And so is a quotient. -/
theorem div_eq_nearest (normal : IsNormal first .positive magnitude)
    (otherNormal : IsNormal second .positive other) :
    first / second = .ofModel (.pack (nearest (magnitude / other))) := by
  obtain ⟨left, leftExponent, leftPositive, unpacked, -, -, -, -, rfl⟩ := normal
  obtain ⟨right, rightExponent, rightPositive, otherUnpacked, -, -, -, -, rfl⟩ := otherNormal
  change Float.ofModel (.pack (div Format.binary64 _ _)) = _
  rw [unpacked, otherUnpacked, Binary64.div_eq_nearest leftPositive rightPositive]

end IsNormal

/-! ## Decimals -/

/-- A decimal is converted to the number nearest to it. -/
theorem ofScientific_eq_nearest {value : ℕ} (positive : 0 < value)
    (lower : -(2 ^ 11 + value.log2 : ℤ) ≤ exponent) (upper : exponent ≤ 2 ^ 11) :
    UnpackedFloat.ofScientific Format.binary64 value exponent =
      nearest (value * 10 ^ exponent) := by
  rw [UnpackedFloat.ofScientific, dif_neg positive.ne', if_neg (not_lt.2 upper),
    if_neg (not_lt.2 lower)]
  split
  · next notNegative =>
    obtain ⟨count, rfl⟩ : ∃ count : ℕ, exponent = count := ⟨exponent.toNat, by omega⟩
    have large : 0 ≤ Int.log 2 ((value : ℚ) * 10 ^ (count : ℤ)) := by
      refine (Int.zpow_le_iff_le_log one_lt_two (by positivity)).1 ?_
      rw [zpow_zero, zpow_natCast]
      exact_mod_cast Nat.mul_pos positive (Nat.pow_pos (by decide : 0 < 10))
    refine mul_eq_nearest _ _ ?_ ?_
    · change ((value <<< 53 : ℕ) : ℚ) * 2 ^ (-53 : ℤ) * ((10 ^ count : ℕ) * 2 ^ (0 : ℤ)) = _
      rw [Nat.shiftLeft_eq, zpow_natCast]
      push_cast
      norm_num
      ring
    · change (-53 : ℤ) + 0 ≤ _
      unfold leastPlace
      omega
  · next negative =>
    obtain ⟨count, rfl⟩ : ∃ count : ℕ, exponent = -count := ⟨(-exponent).toNat, by omega⟩
    rw [div_eq_nearest]
    congr 1
    rw [neg_neg, Int.toNat_natCast, zpow_neg, zpow_natCast]
    push_cast
    norm_num
    rfl

/-- A positive number is unpacked into its mantissa and exponent. -/
theorem unpack_of_ofFloat {number : Float}
    (taken : ofFloat number = .finite false mantissa exponent) (positive : 0 < mantissa) :
    number.toModel.unpack = .finite .positive mantissa exponent positive := by
  rw [ofFloat_eq_ofUnpacked] at taken
  cases unpacked : number.toModel.unpack with
  | notANumber | infinity sign =>
      rw [unpacked] at taken
      cases taken
  | zero sign =>
      rw [unpacked] at taken
      injection taken with _ isZero
      omega
  | finite sign mantissa exponent =>
      rw [unpacked] at taken
      cases sign with
      | negative => cases taken
      | positive =>
          cases taken
          rfl

/-- The powers of ten in the table are exact. -/
theorem powersOfTen_exact :
    ∀ count (inside : count < Float.exactlyRepresentablePowersOfTen.size),
    (match ofFloat Float.exactlyRepresentablePowersOfTen[count] with
    | .finite false mantissa exponent => decide <|
        2 ^ 52 ≤ mantissa ∧ mantissa < 2 ^ 53 ∧ -52 ≤ exponent ∧ exponent ≤ 971 ∧
          mantissa * 2 ^ (exponent + 52).toNat = 10 ^ count * 2 ^ 52
    | _ => false) = true := by
  decide

/-- The tabulated powers of ten are what they are meant to be. -/
theorem isNormal_powerOfTen (count : ℕ)
    (inside : count < Float.exactlyRepresentablePowersOfTen.size) :
    IsNormal Float.exactlyRepresentablePowersOfTen[count] .positive (10 ^ count) := by
  have here := powersOfTen_exact count inside
  split at here
  · next mantissa exponent taken =>
    obtain ⟨lower, upper, least, most, same⟩ := of_decide_eq_true here
    have positive : 0 < mantissa := by omega
    refine ⟨mantissa, exponent, positive, unpack_of_ofFloat taken positive, lower, upper, by omega,
      most, ?_⟩
    have scale : (exponent : ℤ) = (exponent + 52).toNat - 52 := by omega
    have same : (mantissa : ℚ) * 2 ^ (exponent + 52).toNat = 10 ^ count * 2 ^ 52 := by
      exact_mod_cast same
    rw [scale, zpow_sub₀ two_ne_zero, zpow_natCast, ← mul_div_assoc, same]
    norm_num
  · cases here

/-- A decimal is converted to the nearest number. -/
theorem float_ofScientific_eq_nearest {value : ℕ} (positive : 0 < value)
    (lower : -(2 ^ 11 + value.log2 : ℤ) ≤ exponent) (upper : exponent ≤ 2 ^ 11) :
    Float.ofScientific value (exponent < 0) exponent.natAbs =
      .ofModel (.pack (nearest (value * 10 ^ exponent))) := by
  unfold Float.ofScientific
  split
  · next small =>
    have normal := isNormal_toFloat positive small.1
    have power := isNormal_powerOfTen exponent.natAbs (Nat.lt_succ_of_le small.2)
    simp only [decide_eq_true_eq]
    split
    · next negative =>
      refine (normal.div_eq_nearest power).trans ?_
      congr 3
      rw [div_eq_mul_inv, ← zpow_natCast, ← zpow_neg]
      congr 2
      omega
    · next notNegative =>
      refine (normal.mul_eq_nearest power).trans ?_
      congr 3
      rw [← zpow_natCast]
      congr 2
      omega
  · have same : (if decide (exponent < 0) = true then Int.negOfNat exponent.natAbs
        else Int.ofNat exponent.natAbs) = exponent := by
      simp only [decide_eq_true_eq]
      split <;> simp only [Int.negOfNat_eq, Int.ofNat_eq_natCast] <;> omega
    simp only [same]
    rw [← ofScientific_eq_nearest positive lower upper]
    rfl

/-! ## Numbers are nearest to themselves -/

/-- A number is the one nearest to its own value. -/
theorem nearest_of_fits (positive : 0 < mantissa) (small : mantissa < 2 ^ 53)
    (least : leastExponent ≤ exponent) (full : 2 ^ 52 ≤ mantissa ∨ exponent = leastExponent) :
    nearest (mantissa * 2 ^ exponent) = .finite .positive mantissa exponent positive := by
  have unit : (2 : ℚ) ^ exponent ≠ 0 := by positivity
  have units : (mantissa : ℚ) * 2 ^ exponent / 2 ^ exponent = (mantissa : ℤ) := by
    rw [mul_div_cancel_right₀ _ unit, Int.cast_natCast]
  have floor : ⌊(mantissa : ℚ) * 2 ^ exponent / 2 ^ exponent⌋ = mantissa := by
    rw [units, Int.floor_intCast]
  have bits := log_of_floor floor positive
  have fewBits : mantissa.log2 < 53 := (Nat.log2_lt positive.ne').2 small
  have place : leastPlace (mantissa * 2 ^ exponent) = exponent := by
    unfold leastPlace leastExponent at *
    rcases full with full | rfl
    · have := (Nat.le_log2 positive.ne').2 full
      omega
    · omega
  rw [nearest, place, units, nearestEven_intCast, Int.toNat_natCast, settled,
    shiftToTargetExponent_of_lt small least]
  exact dif_neg positive.ne'

/-- The bits of a positive number are its exponent and, below it, its mantissa. -/
theorem toNat_append (biased : BitVec 11) (fraction : BitVec 52) :
    (packComponents Format.binary64 .positive biased fraction).toNat =
      biased.toNat * 2 ^ 52 + fraction.toNat := by
  have withoutSign : (packComponents Format.binary64 .positive biased fraction).toNat =
      (biased ++ fraction).toNat := by
    simp only [packComponents, Sign.toBitVec, BitVec.toNat_append]
    simp
  rw [withoutSign, BitVec.toNat_append, ← Nat.shiftLeft_add_eq_or_of_lt fraction.isLt,
    Nat.shiftLeft_eq]

/-- The bits of a number without a sign count the numbers below it. -/
theorem toNat_pack (positive : 0 < mantissa) (small : mantissa < 2 ^ 53)
    (least : leastExponent ≤ exponent) (most : exponent ≤ 971)
    (full : 2 ^ 52 ≤ mantissa ∨ exponent = leastExponent) :
    ((pack Format.binary64 (.finite .positive mantissa exponent positive)).toNat : ℤ) =
      (exponent - leastExponent) * 2 ^ 52 + mantissa := by
  obtain ⟨biased, isBiased⟩ : ∃ biased : ℕ, exponent = biased - 1075 :=
    ⟨(exponent + 1075).toNat, by unfold leastExponent at least; omega⟩
  have same : (exponent + (1023 : ℕ) + (52 : ℕ)).toNat = biased := by omega
  have unfolded : pack Format.binary64 (.finite .positive mantissa exponent positive) =
      if mantissa.log2 + 1 = 53 then
        packComponents Format.binary64 .positive (BitVec.ofNat 11 biased) (BitVec.ofNat 52 mantissa)
      else packComponents Format.binary64 .positive 0#11 (BitVec.ofNat 52 mantissa) := by
    rw [← same]
    refine if_neg ?_
    change ¬ 2 ^ 11 ≤ (exponent + (1023 : ℕ) + (52 : ℕ)).toNat + 1
    omega
  rw [unfolded]
  unfold leastExponent at *
  split
  · next normal =>
    have lower : 2 ^ 52 ≤ mantissa := by
      have := Nat.log2_self_le positive.ne'
      rwa [show mantissa.log2 = 52 by omega] at this
    rw [toNat_append, BitVec.toNat_ofNat, BitVec.toNat_ofNat]
    omega
  · next subnormal =>
    have fewBits : mantissa.log2 < 53 := (Nat.log2_lt positive.ne').2 small
    have upper : mantissa < 2 ^ 52 := (Nat.log2_lt positive.ne').1 (by omega)
    rw [toNat_append, BitVec.toNat_ofNat, BitVec.toNat_ofNat]
    omega

/-- So the bits of a number that is not negative count its mantissa and exponent together. -/
theorem toNat_toBits {number : Float} (taken : ofFloat number = .finite false mantissa exponent) :
    (number.toBits.toNat : ℤ) = (exponent - leastExponent) * 2 ^ 52 + mantissa ∧
      leastExponent ≤ exponent ∧ (2 ^ 52 ≤ mantissa ∨ exponent = leastExponent) := by
  unfold ofFloat at taken
  simp only [] at taken
  split at taken
  · split at taken <;> cases taken
  · split at taken <;>
    · simp only [finite.injEq, decide_eq_false_iff_not, not_le] at taken
      simp only [signBit, leastMantissa, leastExponent, exponentCount] at *
      omega

/-- A number is told by its bits. -/
theorem eq_of_toBits {first second : Float} (same : first.toBits = second.toBits) :
    first = second := by
  obtain ⟨⟨bits, _⟩⟩ := first
  obtain ⟨⟨otherBits, _⟩⟩ := second
  obtain rfl : bits = otherBits := same
  rfl

/-- The number nearest to the value of a number is the number itself. -/
theorem nearest_value {number : Float} (taken : ofFloat number = .finite false mantissa exponent)
    (positive : 0 < mantissa) :
    .ofModel (.pack (nearest (mantissa * 2 ^ exponent))) = number := by
  obtain ⟨small, most⟩ := bounds_of_ofFloat taken
  obtain ⟨bits, least, full⟩ := toNat_toBits taken
  rw [nearest_of_fits positive small least full]
  refine eq_of_toBits (UInt64.toNat_inj.1 ?_)
  have packed := toNat_pack positive small least most full
  rw [← bits] at packed
  exact_mod_cast packed

end Binary64
end ScopeScript
