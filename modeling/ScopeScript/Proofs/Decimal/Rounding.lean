import Mathlib
import ScopeScript.Decimal.Binary64

/-!
# Rounding of integers

The sum of two numbers is computed exactly and then rounded to 53 significant bits, halves to the
even neighbour. For numbers with integer values this is what `storedInteger` says (`value?_add_one`,
`value?_ofInt`), as long as they do not overflow.
-/

namespace ScopeScript
namespace Binary64

open Float.Model.UnpackedFloat
open Float.Model (UnpackedFloat Format totalExponent)

/-! ## Nearest integers -/

/-- The integer nearest to a value, halves to the even neighbour. -/
def nearestEven (x : ℚ) : ℤ :=
  if Int.fract x < 1 / 2 ∨ (Int.fract x = 1 / 2 ∧ ⌊x⌋ % 2 = 0) then ⌊x⌋ else ⌊x⌋ + 1

@[simp] theorem nearestEven_intCast (n : ℤ) : nearestEven n = n := by
  simp [nearestEven]

/-- Rounding does not pass an integer from above. -/
theorem le_nearestEven {x : ℚ} {n : ℤ} (le : n ≤ x) : n ≤ nearestEven x := by
  have floor : n ≤ ⌊x⌋ := Int.le_floor.2 le
  unfold nearestEven
  split <;> omega

/-- Nor does it from below. -/
theorem nearestEven_le {x : ℚ} {n : ℤ} (lt : x < n) : nearestEven x ≤ n := by
  have floor : ⌊x⌋ < n := Int.floor_lt.2 lt
  unfold nearestEven
  split <;> omega

/-- The bits behind a mantissa say on which side of the middle to the next one a value is. -/
def Stands (extended : ExtendedMantissa) (x : ℚ) : Prop :=
  match extended.roundBit, extended.stickyBit with
  | false, false => x = extended.mantissa
  | false, true => extended.mantissa < x ∧ x < extended.mantissa + 1 / 2
  | true, false => x = extended.mantissa + 1 / 2
  | true, true => extended.mantissa + 1 / 2 < x ∧ x < extended.mantissa + 1

namespace Stands

variable {extended : ExtendedMantissa} {x : ℚ}

theorem exact (mantissa : ℕ) : Stands (.ofMantissaAndAccuracy mantissa .exact) mantissa := rfl

/-- The mantissa is the integer part of the value. -/
theorem floor (stands : Stands extended x) : ⌊x⌋ = extended.mantissa := by
  obtain ⟨mantissa, roundBit, stickyBit⟩ := extended
  refine Int.floor_eq_iff.2 ?_
  cases roundBit <;> cases stickyBit <;> simp only [Stands] at stands <;> push_cast <;>
    constructor <;> linarith

/-- The two bits behind a mantissa round it to the nearest integer. -/
theorem roundedMantissa (stands : Stands extended x) :
    (extended.roundedMantissa : ℤ) = nearestEven x := by
  have floor := stands.floor
  obtain ⟨mantissa, roundBit, stickyBit⟩ := extended
  have fract : Int.fract x = x - mantissa := by rw [Int.fract, floor]; simp
  simp only [nearestEven, floor, fract]
  cases roundBit <;> cases stickyBit <;> simp only [Stands] at stands <;>
    simp only [ExtendedMantissa.roundedMantissa, ExtendedMantissa.accuracy,
      Accuracy.roundToNearestEven]
  · rw [if_pos (.inl (by linarith))]
  · rw [if_pos (.inl (by linarith))]
  · split
    · next middle =>
      have even : (mantissa : ℤ) % 2 = 0 := by
        rcases middle with below | middle
        · linarith
        · exact middle.2
      omega
    · next notEven =>
      have odd : ¬ (mantissa : ℤ) % 2 = 0 := fun even => notEven (.inr ⟨by linarith, even⟩)
      omega
  · rw [if_neg]
    · simp
    · rintro (below | ⟨middle, -⟩) <;> linarith

/-- Shifting by one place keeps what the bits say of half the value. -/
theorem shiftRightOne (stands : Stands extended x) : Stands extended.shiftRightOne (x / 2) := by
  obtain ⟨mantissa, roundBit, stickyBit⟩ := extended
  have whole : ((mantissa % 2 : ℕ) : ℚ) + 2 * ((mantissa / 2 : ℕ) : ℚ) = mantissa := by
    exact_mod_cast Nat.mod_add_div mantissa 2
  rcases Nat.mod_two_eq_zero_or_one mantissa with bit | bit <;> rw [bit] at whole <;>
    cases roundBit <;> cases stickyBit <;> simp only [Stands] at stands <;>
    simp [Stands, ExtendedMantissa.shiftRightOne, bit] <;> push_cast at whole <;>
    first
    | linarith
    | constructor <;> linarith

/-- And so does shifting by several places. -/
theorem shiftRight (stands : Stands extended x) (count : ℕ) :
    Stands (extended >>> count) (x / 2 ^ count) := by
  change Stands (count.repeat ExtendedMantissa.shiftRightOne extended) _
  induction count with
  | zero =>
      rw [pow_zero, div_one]
      exact stands
  | succ count inductionHypothesis =>
      rw [pow_succ, ← div_div]
      exact inductionHypothesis.shiftRightOne

end Stands

/-! ## Rounding to 53 bits -/

/-- The last place of a number is the 53rd, but never smaller than the least one. -/
theorem targetExponent_eq (total : ℤ) :
    Format.binary64.targetExponent total = max (total - 53) (-1074) := rfl

theorem log2_lt_of_lt {value bits : ℕ} (someBits : 0 < bits) (small : value < 2 ^ bits) :
    value.log2 < bits := by
  rcases Nat.eq_zero_or_pos value with rfl | positive
  · simpa using someBits
  · exact (Nat.log2_lt positive.ne').2 small

/-- A mantissa of at most 53 bits is not shifted. -/
theorem shiftToTargetExponent_of_lt {mantissa : ℕ} {exponent : ℤ} (small : mantissa < 2 ^ 53)
    (normal : -1074 ≤ exponent) :
    shiftToTargetExponent Format.binary64 mantissa exponent .exact =
      (.ofMantissaAndAccuracy mantissa .exact, exponent) := by
  have bits : mantissa.log2 < 53 := log2_lt_of_lt (by decide) small
  have noShift : (Format.binary64.targetExponent (totalExponent mantissa exponent) -
      exponent).toNat = 0 := by
    rw [targetExponent_eq, totalExponent]
    omega
  rw [shiftToTargetExponent, shiftToExponent, noShift]
  simp only [Nat.cast_zero, add_zero]
  rfl

/-- A mantissa with one bit too many is shifted by one place. -/
theorem shiftToTargetExponent_two_pow {exponent : ℤ} (normal : -1074 ≤ exponent) :
    shiftToTargetExponent Format.binary64 (2 ^ 53) exponent .exact =
      (.ofMantissaAndAccuracy (2 ^ 52) .exact, exponent + 1) := by
  have oneBit : (Format.binary64.targetExponent (totalExponent (2 ^ 53) exponent) -
      exponent).toNat = 1 := by
    rw [targetExponent_eq, totalExponent, Nat.log2_two_pow]
    omega
  rw [shiftToTargetExponent, shiftToExponent, oneBit]
  rfl

/-- Rounding is done in two steps: to the last place, and once more if that gives a bit too many. -/
theorem roundWithAccuracy_eq {sign : Sign} {mantissa rounded final : ℕ} {exponent target last : ℤ}
    {extended : ExtendedMantissa} (first : shiftToTargetExponent Format.binary64 mantissa exponent
      .exact = (extended, target))
    (isRounded : extended.roundedMantissa = rounded)
    (second : shiftToTargetExponent Format.binary64 rounded target .exact =
      (.ofMantissaAndAccuracy final .exact, last)) (positive : 0 < final) :
    roundWithAccuracy Format.binary64 sign mantissa exponent .exact =
      .finite sign final last positive := by
  unfold roundWithAccuracy
  simp only [first, isRounded, second]
  exact dif_neg positive.ne'

/-- A value between two powers of two. -/
theorem bounds_of_log2 {mantissa : ℕ} {exponent target : ℤ}
    (bits : mantissa.log2 + exponent = target + 52) (positive : 0 < mantissa) :
    2 ^ 52 ≤ (mantissa : ℚ) * 2 ^ exponent / 2 ^ target ∧
      (mantissa : ℚ) * 2 ^ exponent / 2 ^ target < 2 ^ 53 := by
  have lower : (2 : ℚ) ^ (mantissa.log2 : ℤ) ≤ mantissa := by
    exact_mod_cast Nat.log2_self_le positive.ne'
  have upper : (mantissa : ℚ) < 2 ^ (mantissa.log2 + 1 : ℤ) := by
    exact_mod_cast Nat.lt_log2_self
  have two : (2 : ℚ) ≠ 0 := by norm_num
  rw [mul_div_assoc, ← zpow_sub₀ two]
  have scale : (0 : ℚ) < 2 ^ (exponent - target) := by positivity
  constructor
  · calc (2 : ℚ) ^ 52 = 2 ^ (mantissa.log2 : ℤ) * 2 ^ (exponent - target) := by
          rw [← zpow_add₀ two, show (mantissa.log2 : ℤ) + (exponent - target) = (52 : ℕ) by
            omega, zpow_natCast]
      _ ≤ mantissa * 2 ^ (exponent - target) := mul_le_mul_of_nonneg_right lower scale.le
  · calc (mantissa : ℚ) * 2 ^ (exponent - target) <
          2 ^ (mantissa.log2 + 1 : ℤ) * 2 ^ (exponent - target) :=
          mul_lt_mul_of_pos_right upper scale
      _ = 2 ^ 53 := by
          rw [← zpow_add₀ two, show (mantissa.log2 + 1 : ℤ) + (exponent - target) = (53 : ℕ) by
            omega, zpow_natCast]

/-- A positive value has been rounded to a multiple of `2 ^ target` and given a sign. The mantissa
has 53 bits; if rounding up has made it a power of two, the exponent has grown. -/
def IsRounded (sign : Sign) (x : ℚ) (target : ℤ) (number : UnpackedFloat) : Prop :=
  ∃ mantissa exponent positive, number = .finite sign mantissa exponent positive ∧
    2 ^ 52 ≤ mantissa ∧ mantissa < 2 ^ 53 ∧
    (exponent = target ∨ exponent = target + 1 ∧ nearestEven (x / 2 ^ target) = 2 ^ 53) ∧
    (mantissa : ℚ) * 2 ^ exponent = nearestEven (x / 2 ^ target) * 2 ^ target

/-- A positive value is rounded to the nearest integer in units of its last place. -/
theorem isRounded_roundWithAccuracy (sign : Sign) {mantissa : ℕ} {exponent target : ℤ}
    (bits : mantissa.log2 + exponent = target + 52) (positive : 0 < mantissa)
    (le : exponent ≤ target) (normal : -1074 ≤ target) :
    IsRounded sign (mantissa * 2 ^ exponent) target
      (roundWithAccuracy Format.binary64 sign mantissa exponent .exact) := by
  obtain ⟨lower, upper⟩ := bounds_of_log2 bits positive
  obtain ⟨count, rfl⟩ : ∃ count : ℕ, target = exponent + count :=
    ⟨(target - exponent).toNat, by omega⟩
  have shift : (Format.binary64.targetExponent (totalExponent mantissa exponent) -
      exponent).toNat = count := by
    rw [targetExponent_eq, totalExponent]
    omega
  have first : shiftToTargetExponent Format.binary64 mantissa exponent .exact =
      (ExtendedMantissa.ofMantissaAndAccuracy mantissa .exact >>> count, exponent + count) := by
    rw [shiftToTargetExponent, shiftToExponent, shift]
  have stands := (Stands.exact mantissa).shiftRight count
  rw [show (mantissa : ℚ) / 2 ^ count = mantissa * 2 ^ exponent / 2 ^ (exponent + count) by
    rw [zpow_add₀ (by norm_num), zpow_natCast]
    field_simp] at stands
  generalize ExtendedMantissa.ofMantissaAndAccuracy mantissa .exact >>> count = extended
    at first stands
  have nearest := stands.roundedMantissa
  have least := le_nearestEven (n := 2 ^ 52) (by exact_mod_cast lower)
  have most := nearestEven_le (n := 2 ^ 53) (by exact_mod_cast upper)
  rw [← nearest] at least most
  unfold IsRounded
  rw [← nearest]
  generalize isRounded : extended.roundedMantissa = rounded at least most ⊢
  have least : 2 ^ 52 ≤ rounded := by exact_mod_cast least
  rcases Nat.lt_or_eq_of_le (show rounded ≤ 2 ^ 53 by exact_mod_cast most) with small | rfl
  · exact ⟨rounded, _, by omega,
      roundWithAccuracy_eq first isRounded (shiftToTargetExponent_of_lt small normal) _,
      least, small, .inl rfl, rfl⟩
  · refine ⟨2 ^ 52, _, by decide,
      roundWithAccuracy_eq first isRounded (shiftToTargetExponent_two_pow normal) _,
      le_rfl, by decide, .inr ⟨rfl, rfl⟩, ?_⟩
    rw [zpow_add_one₀ (by norm_num)]
    push_cast
    ring

/-- Shifting to the left adds bits. -/
theorem log2_shiftLeft {mantissa : ℕ} (positive : 0 < mantissa) (count : ℕ) :
    (mantissa <<< count).log2 = mantissa.log2 + count := by
  rw [Nat.shiftLeft_eq]
  induction count with
  | zero => simp
  | succ count inductionHypothesis =>
      rw [pow_succ, ← mul_assoc, mul_comm _ 2,
        Nat.log2_two_mul (Nat.mul_pos positive (Nat.two_pow_pos count)).ne', inductionHypothesis]
      rfl

/-- Before something is rounded it is given as many bits as are needed. -/
theorem isRounded_round (sign : Sign) {mantissa : ℕ} {exponent target : ℤ}
    (bits : mantissa.log2 + exponent = target + 52) (positive : 0 < mantissa)
    (normal : -1074 ≤ target) :
    IsRounded sign (mantissa * 2 ^ exponent) target
      (Float.Model.UnpackedFloat.round Format.binary64 sign mantissa exponent) := by
  have isTarget : Format.binary64.targetExponent (totalExponent mantissa exponent) = target := by
    rw [targetExponent_eq, totalExponent]
    omega
  have unfolded : Float.Model.UnpackedFloat.round Format.binary64 sign mantissa exponent =
      roundWithAccuracy Format.binary64 sign (mantissa <<< (exponent - target).toNat)
        (exponent - (exponent - target).toNat) .exact := by
    rw [← isTarget]
    rfl
  have same : (mantissa : ℚ) * 2 ^ exponent =
      (mantissa <<< (exponent - target).toNat : ℕ) *
        2 ^ (exponent - (exponent - target).toNat) := by
    rw [Nat.shiftLeft_eq, zpow_sub₀ (by norm_num), zpow_natCast]
    push_cast
    field_simp
  rw [unfolded, same]
  refine isRounded_roundWithAccuracy sign ?_ ?_ (by omega) normal
  · rw [log2_shiftLeft positive]
    omega
  · rw [Nat.shiftLeft_eq]
    positivity

/-! ## Taking numbers apart -/

/-- The sign that is packed is unpacked. -/
theorem unpackSign_packComponents {spec : Format} (sign : Sign)
    (exponent : BitVec spec.exponentBits) (mantissa : BitVec spec.mantissaBitsWithoutImplicit) :
    unpackSign (packComponents spec sign exponent mantissa) = sign.toBitVec := by
  refine BitVec.eq_of_getLsbD_eq fun i inside => ?_
  have first : i = 0 := by omega
  subst first
  simp [unpackSign, packComponents, BitVec.getLsbD_append, BitVec.getElem_append]

/-- The leading bit of a mantissa counts as its highest one. -/
theorem toNat_one_append (fraction : BitVec 52) :
    (1#1 ++ fraction).toNat = 2 ^ 52 + fraction.toNat := by
  rw [BitVec.toNat_append, ← Nat.shiftLeft_add_eq_or_of_lt fraction.isLt]
  rfl

/-- A finite number with 53 bits is what it is packed into. -/
theorem unpack_pack (sign : Sign) {mantissa : ℕ} {exponent : ℤ} (positive : 0 < mantissa)
    (lower : 2 ^ 52 ≤ mantissa) (upper : mantissa < 2 ^ 53) (normal : -1074 ≤ exponent)
    (fits : exponent ≤ 971) :
    unpack Format.binary64 (pack Format.binary64 (.finite sign mantissa exponent positive)) =
      .finite sign mantissa exponent positive := by
  obtain ⟨biased, isBiased⟩ : ∃ biased : ℕ, exponent = biased - 1075 :=
    ⟨(exponent + 1075).toNat, by omega⟩
  have bits : mantissa.log2 + 1 = 53 := by
    rw [(Nat.log2_eq_iff positive.ne').2 ⟨lower, upper⟩]
  have packed : pack Format.binary64 (.finite sign mantissa exponent positive) =
      packComponents Format.binary64 sign (BitVec.ofNat 11 biased) (BitVec.ofNat 52 mantissa) := by
    have same : (exponent + (1023 : ℕ) + (52 : ℕ)).toNat = biased := by omega
    change (if 2 ^ 11 ≤ (exponent + (1023 : ℕ) + (52 : ℕ)).toNat + 1 then _
      else if mantissa.log2 + 1 = 53 then _ else _) = _
    rw [same, if_neg (by omega), if_pos bits, ← same]
    rfl
  have exponentIs : (BitVec.ofNat 11 biased).toNat = biased := by
    rw [BitVec.toNat_ofNat]
    omega
  have mantissaIs : (1#1 ++ BitVec.ofNat 52 mantissa).toNat = mantissa := by
    rw [toNat_one_append, BitVec.toNat_ofNat]
    omega
  have differs {other : BitVec 11} (different : biased ≠ other.toNat) :
      BitVec.ofNat 11 biased ≠ other :=
    fun same => different (by rw [← same, exponentIs])
  have notAllOnes : BitVec.ofNat 11 biased ≠ -1#11 := differs (show biased ≠ 2047 by omega)
  have notZero : BitVec.ofNat 11 biased ≠ 0#11 := differs (show biased ≠ 0 by omega)
  have signIs : Sign.ofBitVec sign.toBitVec = sign := by cases sign <;> rfl
  rw [packed, unpack]
  simp only [unpackMantissa_packComponents, unpackExponent_packComponents,
    unpackSign_packComponents, exponentIs, mantissaIs, signIs, notAllOnes, notZero, if_false]
  congr 1
  exact isBiased.symm

/-- Whether a sign is the negative one. -/
def isNegative : Sign → Bool
  | .negative => true
  | .positive => false

/-- The parts of a number that has been unpacked. -/
def ofUnpacked : UnpackedFloat → Binary64
  | .notANumber => .notANumber
  | .infinity sign => .infinite (isNegative sign)
  | .zero sign => .finite (isNegative sign) 0 leastExponent
  | .finite sign mantissa exponent _ => .finite (isNegative sign) mantissa exponent

/-- The stored bits of a mantissa are the lowest 52. -/
theorem toNat_unpackMantissa (bits : BitVec 64) :
    (@unpackMantissa Format.binary64 bits).toNat = bits.toNat % 2 ^ 52 := by
  simp [unpackMantissa]

/-- The exponent is stored in the eleven bits above them. -/
theorem toNat_unpackExponent (bits : BitVec 64) :
    (@unpackExponent Format.binary64 bits).toNat = bits.toNat / 2 ^ 52 % 2 ^ 11 := by
  simp [unpackExponent, Nat.shiftRight_eq_div_pow]

/-- The highest bit is the sign. -/
theorem isNegative_unpackSign (bits : BitVec 64) :
    isNegative (Sign.ofBitVec (@unpackSign Format.binary64 bits)) =
      decide (signBit ≤ bits.toNat) := by
  have sign : (@unpackSign Format.binary64 bits).toNat = bits.toNat / 2 ^ 63 % 2 := by
    simp [unpackSign, Nat.shiftRight_eq_div_pow]
  have bound := bits.isLt
  unfold signBit
  rw [Sign.ofBitVec]
  split
  · next zero =>
    rw [zero] at sign
    change 0 = _ at sign
    rw [eq_comm, isNegative]
    exact decide_eq_false (by omega)
  · next notZero =>
    rw [eq_comm, isNegative]
    refine decide_eq_true ?_
    by_contra small
    exact notZero (BitVec.eq_of_toNat_eq (by rw [sign]; change _ = 0; omega))

/-- Reading the bits of a number gives what unpacking gives. -/
theorem ofFloat_eq_ofUnpacked (number : Float) :
    ofFloat number = ofUnpacked number.toModel.unpack := by
  have mantissa := toNat_unpackMantissa number.toBits.toBitVec
  have exponent := toNat_unpackExponent number.toBits.toBitVec
  have sign := isNegative_unpackSign number.toBits.toBitVec
  rw [UInt64.toNat_toBitVec] at mantissa exponent sign
  generalize taken : number.toBits.toBitVec = bits at mantissa exponent sign
  have unpacked : number.toModel.unpack = unpack Format.binary64 bits := by
    rw [← taken]
    rfl
  rw [unpacked, unpack]
  have allOnes : @unpackExponent Format.binary64 bits = -1#11 ↔
      number.toBits.toNat / leastMantissa % exponentCount = exponentCount - 1 := by
    rw [← BitVec.toNat_inj, exponent]
    rfl
  have noExponent : @unpackExponent Format.binary64 bits = 0#11 ↔
      number.toBits.toNat / leastMantissa % exponentCount = 0 := by
    rw [← BitVec.toNat_inj, exponent]
    rfl
  have noMantissa : @unpackMantissa Format.binary64 bits = 0#52 ↔
      number.toBits.toNat % leastMantissa = 0 := by
    rw [← BitVec.toNat_inj, mantissa]
    rfl
  have signIs : isNegative (Sign.ofBitVec (@unpackSign Format.binary64 bits)) =
    decide (signBit ≤ number.toBits.toNat) := sign
  simp only [ofFloat, allOnes, noExponent, noMantissa]
  split
  · split <;> simp only [ofUnpacked, signIs]
  · split
    · split
      · next zero => simp only [ofUnpacked, signIs, zero]
      · simp only [ofUnpacked, signIs, mantissa, exponent]
        rw [show number.toBits.toNat / 2 ^ 52 % 2 ^ 11 = 0 by assumption]
        rfl
    · simp only [ofUnpacked, signIs, toNat_one_append, mantissa, exponent]
      refine congrArg (Binary64.finite _ _) ?_
      change -1074 + _ - 1 = _ - ((1023 : ℤ) + 52)
      rw [show leastMantissa = 2 ^ 52 from rfl, show exponentCount = 2 ^ 11 from rfl]
      omega

/-! ## Exact values -/

/-- The value of a finite number. -/
def value? : Binary64 → Option ℚ
  | finite negative mantissa exponent => some (signed negative mantissa * 2 ^ exponent)
  | _ => none

/-- Rounding a quotient of naturals looks at twice the remainder. -/
theorem nearestEven_div (value : ℕ) {unit : ℕ} (positive : 0 < unit) :
    nearestEven (value / unit) =
      ((if 2 * (value % unit) < unit ∨ (2 * (value % unit) = unit ∧ value / unit % 2 = 0) then
        value / unit else value / unit + 1 : ℕ) : ℤ) := by
  have scale : (0 : ℚ) < unit := by exact_mod_cast positive
  have fract : Int.fract ((value : ℚ) / unit) = (value % unit : ℕ) / unit :=
    Int.fract_div_natCast_eq_div_natCast_mod
  have floor : ⌊(value : ℚ) / unit⌋ = (value / unit : ℕ) :=
    Rat.floor_natCast_div_natCast value unit
  have below : Int.fract ((value : ℚ) / unit) < 1 / 2 ↔ 2 * (value % unit) < unit := by
    rw [fract, div_lt_div_iff₀ scale two_pos, one_mul, mul_comm]
    exact_mod_cast Iff.rfl
  have middle : Int.fract ((value : ℚ) / unit) = 1 / 2 ↔ 2 * (value % unit) = unit := by
    rw [fract, div_eq_div_iff scale.ne' two_ne_zero, one_mul, mul_comm]
    exact_mod_cast Iff.rfl
  have even : ((value / unit : ℕ) : ℤ) % 2 = 0 ↔ value / unit % 2 = 0 := by
    exact_mod_cast Iff.rfl
  simp only [nearestEven, below, middle, floor, even]
  split <;> push_cast <;> rfl

/-- Integers below `2 ^ 53` are stored exactly. -/
theorem storedInteger_of_lt {value : ℤ} (small : value.natAbs < 2 ^ 53) :
    storedInteger value = value :=
  if_pos small

/-- Integers of both signs are stored alike. -/
theorem storedInteger_neg (value : ℤ) : storedInteger (-value) = -storedInteger value := by
  unfold storedInteger
  simp only [Int.natAbs_neg]
  split
  · rfl
  · next large =>
    have notZero : value ≠ 0 := by
      rintro rfl
      exact large (by decide)
    rcases lt_or_gt_of_ne notZero with below | above
    · simp [signed, below, below.le]
    · simp [signed, above, above.le]

/-- What a natural number is stored as, as a rounded value. -/
theorem storedInteger_natCast {value : ℕ} (positive : 0 < value) :
    (storedInteger value : ℚ) =
      nearestEven (value / 2 ^ (value.log2 - 52 : ℤ)) * 2 ^ (value.log2 - 52 : ℤ) := by
  rcases Nat.lt_or_ge value (2 ^ 53) with small | large
  · have bits : value.log2 < 53 := (Nat.log2_lt positive.ne').2 small
    obtain ⟨count, isCount⟩ : ∃ count : ℕ, (value.log2 - 52 : ℤ) = -count :=
      ⟨52 - value.log2, by omega⟩
    have whole : (value : ℚ) / 2 ^ (-(count : ℤ)) = ((value * 2 ^ count : ℕ) : ℤ) := by
      rw [zpow_neg, div_inv_eq_mul, zpow_natCast]
      push_cast
      rfl
    have stored : storedInteger value = value := storedInteger_of_lt (by simpa using small)
    rw [stored, isCount, whole, nearestEven_intCast, zpow_neg, zpow_natCast]
    push_cast
    field_simp
  · have bits : 53 ≤ value.log2 := (Nat.le_log2 positive.ne').2 large
    have isCount : (value.log2 - 52 : ℤ) = (value.log2 - 52 : ℕ) := by omega
    have stored : storedInteger value = nearestEven ((value : ℚ) / (2 ^ (value.log2 - 52) : ℕ)) *
        (2 ^ (value.log2 - 52) : ℕ) := by
      rw [nearestEven_div value (Nat.two_pow_pos _), ← Nat.cast_mul]
      exact if_neg (not_lt.2 large)
    rw [stored, isCount, zpow_natCast]
    push_cast
    rfl

/-- A finite number with 53 bits that has the given sign and magnitude. -/
def IsNormal (number : Float) (sign : Sign) (magnitude : ℚ) : Prop :=
  ∃ mantissa exponent positive, number.toModel.unpack = .finite sign mantissa exponent positive ∧
    2 ^ 52 ≤ mantissa ∧ mantissa < 2 ^ 53 ∧ -1074 ≤ exponent ∧ exponent ≤ 971 ∧
    (mantissa : ℚ) * 2 ^ exponent = magnitude

theorem unpack_ofModel_pack (number : UnpackedFloat) :
    (Float.ofModel (.pack number)).toModel.unpack =
      unpack Format.binary64 (pack Format.binary64 number) := rfl

/-- What has been rounded without an overflow has the stored integer as its value. -/
theorem isNormal_of_isRounded {sign : Sign} {value : ℕ} {number : UnpackedFloat}
    (positive : 0 < value) (fits : (storedInteger value).natAbs.log2 < 1024)
    (rounded : IsRounded sign value (value.log2 - 52) number) :
    IsNormal (.ofModel (.pack number)) sign (storedInteger value) := by
  obtain ⟨mantissa, exponent, some, rfl, lower, upper, exponentIs, valueIs⟩ := rounded
  rw [← storedInteger_natCast positive] at valueIs
  have most : exponent ≤ 971 := by
    by_contra large
    obtain ⟨count, rfl⟩ : ∃ count : ℕ, exponent = count := ⟨exponent.toNat, by omega⟩
    rw [zpow_natCast] at valueIs
    have shifted : storedInteger value = (mantissa <<< count : ℕ) := by
      rw [Nat.shiftLeft_eq]
      exact_mod_cast valueIs.symm
    rw [shifted, Int.natAbs_natCast, log2_shiftLeft some,
      (Nat.log2_eq_iff some.ne').2 ⟨lower, upper⟩] at fits
    omega
  refine ⟨mantissa, exponent, some, ?_, lower, upper, by omega, most, valueIs⟩
  rw [unpack_ofModel_pack, unpack_pack sign some lower upper (by omega) most]

namespace IsNormal

variable {number : Float} {sign : Sign} {magnitude : ℚ}

/-- The value of a number in its normal form. -/
theorem value? (normal : IsNormal number sign magnitude) :
    (ofFloat number).value? = some ((sign.apply 1 : ℤ) * magnitude) := by
  obtain ⟨mantissa, exponent, _, unpacked, _, _, _, _, rfl⟩ := normal
  rw [ofFloat_eq_ofUnpacked, unpacked]
  cases sign <;> simp [ofUnpacked, Binary64.value?, isNegative, signed, Sign.apply]

/-- Negation changes the sign and nothing else. -/
theorem neg (normal : IsNormal number sign magnitude) : IsNormal (-number) (-sign) magnitude := by
  obtain ⟨mantissa, exponent, positive, unpacked, lower, upper, least, most, valueIs⟩ := normal
  refine ⟨mantissa, exponent, positive, ?_, lower, upper, least, most, valueIs⟩
  change (Float.ofModel (.pack number.toModel.unpack.neg)).toModel.unpack = _
  rw [unpacked, unpack_ofModel_pack]
  exact unpack_pack (-sign) positive lower upper least most

end IsNormal

/-! ## Integers -/

/-- An integer is rounded to the stored one, however it is scaled. -/
theorem isNormal_round (sign : Sign) {value : ℕ} (positive : 0 < value)
    (fits : (storedInteger value).natAbs.log2 < 1024) (count : ℕ) :
    IsNormal (.ofModel (.pack (Float.Model.UnpackedFloat.round Format.binary64 sign
      (value <<< count) (-count)))) sign (storedInteger value) := by
  refine isNormal_of_isRounded positive fits ?_
  have same : (value : ℚ) = (value <<< count : ℕ) * 2 ^ (-(count : ℤ)) := by
    rw [Nat.shiftLeft_eq, zpow_neg, zpow_natCast]
    push_cast
    field_simp
  rw [same]
  refine isRounded_round sign ?_ ?_ (by omega)
  · rw [log2_shiftLeft positive]
    push_cast
    ring
  · rw [Nat.shiftLeft_eq]
    positivity

/-- The exact result of an operation is rounded to the stored integer if it is an integer. -/
theorem value?_normalize {scaled exponent value : ℤ} (le : exponent ≤ 0)
    (same : (scaled : ℚ) * 2 ^ exponent = value)
    (fits : (storedInteger value).natAbs.log2 < 1024) :
    (ofFloat (.ofModel
      (.pack (UnpackedFloat.normalize Format.binary64 scaled exponent .positive)))).value? =
      some (storedInteger value : ℚ) := by
  obtain ⟨count, rfl⟩ : ∃ count : ℕ, exponent = -count := ⟨exponent.natAbs, by omega⟩
  have scaledIs : scaled = value * 2 ^ count := by
    rw [zpow_neg, zpow_natCast, mul_inv_eq_iff_eq_mul₀ (by positivity)] at same
    exact_mod_cast same
  rcases lt_trichotomy value 0 with below | rfl | above
  · obtain ⟨magnitude, rfl⟩ : ∃ magnitude : ℕ, value = -magnitude := ⟨value.natAbs, by omega⟩
    have positive : 0 < magnitude := by omega
    have negative : compare scaled 0 = .lt := by
      rw [Int.compare_eq_lt, scaledIs]
      exact mul_neg_of_neg_of_pos below (by positivity)
    have shifted : (-scaled).toNat = magnitude <<< count := by
      rw [scaledIs, Nat.shiftLeft_eq, neg_mul, neg_neg]
      exact Int.toNat_natCast _
    rw [storedInteger_neg, Int.natAbs_neg] at fits
    rw [UnpackedFloat.normalize, negative, shifted,
      (isNormal_round .negative positive fits count).value?]
    simp [Sign.apply, storedInteger_neg]
  · rw [scaledIs, zero_mul]
    have taken : ofFloat (.ofModel (.pack (.zero .positive))) = .finite false 0 (-1074) := by
      decide
    change (ofFloat (.ofModel (.pack (.zero .positive)))).value? = _
    rw [taken]
    simp [Binary64.value?, signed, storedInteger]
  · obtain ⟨magnitude, rfl⟩ : ∃ magnitude : ℕ, value = magnitude := ⟨value.natAbs, by omega⟩
    have positive : 0 < magnitude := by omega
    have notNegative : compare scaled 0 = .gt := by
      rw [Int.compare_eq_gt, scaledIs]
      positivity
    have shifted : scaled.toNat = magnitude <<< count := by
      rw [scaledIs, Nat.shiftLeft_eq]
      exact Int.toNat_natCast _
    rw [UnpackedFloat.normalize, notNegative, shifted,
      (isNormal_round .positive positive fits count).value?]
    simp [Sign.apply]

/-- One in its normal form. -/
theorem unpack_one :
    (1 : Float).toModel.unpack = .finite .positive (2 ^ 52) (-52) (by decide) := by
  rfl

theorem signed_isNegative (sign : Sign) (mantissa : ℕ) :
    signed (isNegative sign) mantissa = sign.apply mantissa := by
  cases sign <;> rfl

/-- Writing a number with a smaller exponent does not change its value. -/
theorem apply_decreaseExponent (sign : Sign) (mantissa : ℕ) {exponent smaller : ℤ}
    (le : smaller ≤ exponent) :
    ((sign.apply (decreaseExponent mantissa exponent smaller).1 : ℤ) : ℚ) * 2 ^ smaller =
      (sign.apply mantissa : ℤ) * 2 ^ exponent := by
  obtain ⟨count, rfl⟩ : ∃ count : ℕ, exponent = smaller + count :=
    ⟨(exponent - smaller).toNat, by omega⟩
  have shift : (smaller + count - smaller).toNat = count := by omega
  rw [decreaseExponent, shift, Nat.shiftLeft_eq, zpow_add₀ (by norm_num), zpow_natCast]
  cases sign <;> simp only [Sign.apply] <;> push_cast <;> ring

/-- Adding one to a number with an integer value gives the next integer, as it is stored. -/
theorem value?_add_one {number : Float} {value : ℤ}
    (valueIs : (ofFloat number).value? = some (value : ℚ))
    (fits : (storedInteger (value + 1)).natAbs.log2 < 1024) :
    (ofFloat (number + 1)).value? = some (storedInteger (value + 1) : ℚ) := by
  have sum : number + 1 = .ofModel (.pack (add Format.binary64 number.toModel.unpack
      (.finite .positive (2 ^ 52) (-52) (by decide)))) := by
    rw [← unpack_one]
    rfl
  rw [ofFloat_eq_ofUnpacked] at valueIs
  rw [sum]
  generalize number.toModel.unpack = unpacked at valueIs
  cases unpacked with
  | notANumber => cases valueIs
  | infinity sign => cases valueIs
  | zero sign =>
      have isZero : value = 0 := by
        have same := Option.some.inj valueIs
        rw [show signed _ 0 = 0 by cases sign <;> rfl, Int.cast_zero, zero_mul] at same
        exact_mod_cast same.symm
      subst isZero
      have taken : ofFloat (.ofModel (.pack (.finite .positive (2 ^ 52) (-52) (by decide)))) =
          .finite false (2 ^ 52) (-52) := by
        decide
      change (ofFloat (.ofModel (.pack (.finite .positive (2 ^ 52) (-52) _)))).value? = _
      rw [taken]
      simp only [Binary64.value?, signed, storedInteger, leastMantissa]
      norm_num
  | finite sign mantissa exponent positive =>
      have finiteValue : (sign.apply mantissa : ℚ) * 2 ^ exponent = value := by
        rw [← Option.some.inj valueIs, signed_isNegative]
      have first := apply_decreaseExponent sign mantissa (min_le_left exponent (-52))
      have second := apply_decreaseExponent .positive (2 ^ 52) (min_le_right exponent (-52))
      have sumIs : (((sign.apply (decreaseExponent mantissa exponent (min exponent (-52))).1 +
          Sign.positive.apply (decreaseExponent (2 ^ 52) (-52) (min exponent (-52))).1 : ℤ)) : ℚ) *
            2 ^ min exponent (-52) = ((value + 1 : ℤ) : ℚ) := by
        rw [Int.cast_add, add_mul, first, second, finiteValue]
        norm_num [Sign.apply]
      exact value?_normalize ((min_le_right _ _).trans (by decide)) sumIs fits

/-- A product with one has the same value. -/
theorem IsNormal.mul_one {number one : Float} {sign : Sign} {magnitude : ℚ}
    (normal : IsNormal number sign magnitude)
    (isOne : one.toModel.unpack = .finite .positive (2 ^ 52) (-52) (by decide)) :
    IsNormal (number * one) sign magnitude := by
  obtain ⟨mantissa, exponent, positive, unpacked, lower, upper, least, most, valueIs⟩ := normal
  have product : number * one = .ofModel (.pack (roundWithAccuracy Format.binary64 sign
      (mantissa * 2 ^ 52) (exponent + -52) .exact)) := by
    change Float.ofModel (.pack (mul Format.binary64 _ _)) = _
    rw [unpacked, isOne]
    cases sign <;> rfl
  have bits : (mantissa * 2 ^ 52).log2 + (exponent + -52) = exponent + 52 := by
    rw [← Nat.shiftLeft_eq, log2_shiftLeft positive,
      (Nat.log2_eq_iff positive.ne').2 ⟨lower, upper⟩]
    push_cast
    ring
  have whole : ((mantissa * 2 ^ 52 : ℕ) : ℚ) * 2 ^ (exponent + -52) / 2 ^ exponent =
      (mantissa : ℤ) := by
    rw [zpow_add₀ (by norm_num)]
    push_cast
    field_simp
    norm_num
  obtain ⟨rounded, last, some, isRounded, roundedLower, roundedUpper, lastIs, sameValue⟩ :=
    isRounded_roundWithAccuracy sign bits (by positivity) (by omega) least
  rw [whole, nearestEven_intCast] at lastIs sameValue
  have kept : last = exponent := by
    rcases lastIs with kept | ⟨_, carried⟩
    · exact kept
    · omega
  refine ⟨rounded, last, some, ?_, roundedLower, roundedUpper, by omega, by omega, ?_⟩
  · rw [product, isRounded, unpack_ofModel_pack,
      unpack_pack sign some roundedLower roundedUpper (by omega) (by omega)]
  · rw [sameValue, ← valueIs]
    push_cast
    rfl

/-- A word of at most 53 bits as a number. -/
theorem isNormal_toFloat {value : ℕ} (positive : 0 < value) (small : value < 2 ^ 53) :
    IsNormal value.toUInt64.toFloat .positive value := by
  have stored : storedInteger value = value := storedInteger_of_lt (by simpa using small)
  have sameWord : value.toUInt64.toNat = value := Nat.mod_eq_of_lt (by omega)
  have converted : value.toUInt64.toFloat = .ofModel (.pack
      (Float.Model.UnpackedFloat.round Format.binary64 .positive (value <<< 0) (-(0 : ℕ)))) := by
    change Float.ofModel (.pack (UnpackedFloat.normalize Format.binary64
      (value.toUInt64.toNat : ℤ) 0 .positive)) = _
    have greater : compare (value : ℤ) 0 = .gt := Int.compare_eq_gt.2 (by exact_mod_cast positive)
    rw [sameWord, UnpackedFloat.normalize, greater]
    rfl
  have fits : (storedInteger value).natAbs.log2 < 1024 := by
    rw [stored, Int.natAbs_natCast]
    exact (log2_lt_of_lt (by decide) small).trans (by decide)
  have normal := isNormal_round .positive positive fits 0
  rwa [← converted, stored, Int.cast_natCast] at normal

/-- A natural number is converted to the stored one. -/
theorem isNormal_ofNat {value : ℕ} (positive : 0 < value)
    (fits : (storedInteger value).natAbs.log2 < 1024) :
    IsNormal (Float.ofNat value) .positive (storedInteger value) := by
  change IsNormal (Float.ofScientific value false 0) _ _
  unfold Float.ofScientific
  split
  · next small =>
    have normal := isNormal_toFloat positive small.1
    rw [storedInteger_of_lt (by simpa using small.1), Int.cast_natCast]
    refine normal.mul_one ?_
    change (Float.ofBits 0x3FF0000000000000).toModel.unpack = _
    rfl
  · next large =>
    have large : 2 ^ 53 ≤ value := by omega
    have bits : 53 ≤ value.log2 := (Nat.le_log2 positive.ne').2 large
    have scientific : UnpackedFloat.ofScientific Format.binary64 value (Int.ofNat 0) =
        roundWithAccuracy Format.binary64 .positive (value <<< 53) (-53) .exact := by
      have notZero : ¬ value = 0 := positive.ne'
      have notSmall : ¬ (Int.ofNat 0 < -((2 ^ 11 : ℤ) + value.log2)) := by
        simp only [Int.ofNat_eq_natCast]
        omega
      rw [UnpackedFloat.ofScientific, dif_neg notZero, if_neg (by decide), if_neg notSmall,
        if_pos (by decide)]
      change roundWithAccuracy Format.binary64 .positive (value <<< 53 * 1) (-53 + 0) .exact = _
      rw [mul_one]
      rfl
    refine isNormal_of_isRounded positive fits ?_
    change IsRounded _ _ _ (UnpackedFloat.ofScientific Format.binary64 value (Int.ofNat 0))
    have same : (value : ℚ) = (value <<< 53 : ℕ) * 2 ^ (-53 : ℤ) := by
      rw [Nat.shiftLeft_eq]
      push_cast
      norm_num
      ring
    rw [scientific, same]
    refine isRounded_roundWithAccuracy .positive ?_ ?_ (by omega) (by omega)
    · rw [log2_shiftLeft positive]
      push_cast
      ring
    · rw [Nat.shiftLeft_eq]
      positivity

/-- An integer as a number has the value that it is stored as. -/
theorem value?_ofInt {value : ℤ} (fits : (storedInteger value).natAbs.log2 < 1024) :
    (ofFloat (Float.ofInt value)).value? = some (storedInteger value : ℚ) := by
  rcases lt_trichotomy value 0 with below | rfl | above
  · obtain ⟨magnitude, rfl⟩ : ∃ magnitude : ℕ, value = Int.negSucc magnitude :=
      ⟨(-value - 1).toNat, by omega⟩
    rw [Int.negSucc_eq, storedInteger_neg, Int.natAbs_neg] at fits
    have normal := (isNormal_ofNat (Nat.succ_pos magnitude) (by exact_mod_cast fits)).neg
    change (ofFloat (-Float.ofNat (magnitude + 1))).value? = _
    rw [normal.value?, Int.negSucc_eq, storedInteger_neg]
    simp [Sign.apply]
  · have taken : ofFloat (Float.ofInt 0) = .finite false 0 (-1074) := by decide
    rw [taken]
    simp [Binary64.value?, signed, storedInteger]
  · obtain ⟨magnitude, rfl⟩ : ∃ magnitude : ℕ, value = magnitude := ⟨value.natAbs, by omega⟩
    change (ofFloat (Float.ofNat magnitude)).value? = _
    rw [(isNormal_ofNat (by omega) fits).value?]
    simp [Sign.apply]

/-! ## Rounding to an integer -/

/-- The integer nearest to a value, halves away from zero. -/
def roundAway (x : ℚ) : ℤ :=
  if x < 0 then -⌊-x + 1 / 2⌋ else ⌊x + 1 / 2⌋

/-- The magnitude of the nearest integer is found by adding one half and rounding down. -/
theorem floor_add_half (mantissa : ℕ) (exponent : ℤ) :
    ⌊(mantissa : ℚ) * 2 ^ exponent + 1 / 2⌋ =
      ((if 0 ≤ exponent then mantissa * Nat.pow 2 exponent.toNat
        else (2 * mantissa + Nat.pow 2 (-exponent).toNat) / (2 * Nat.pow 2 (-exponent).toNat) : ℕ) :
          ℤ) := by
  split
  · next notNegative =>
    obtain ⟨count, rfl⟩ : ∃ count : ℕ, exponent = count := ⟨exponent.toNat, by omega⟩
    have whole : (mantissa : ℚ) * 2 ^ (count : ℤ) = ((mantissa * 2 ^ count : ℕ) : ℤ) := by
      rw [zpow_natCast]
      push_cast
      rfl
    have half : ⌊(1 / 2 : ℚ)⌋ = 0 := by norm_num
    rw [whole, Int.floor_intCast_add, half, add_zero]
    rfl
  · next negative =>
    obtain ⟨count, rfl⟩ : ∃ count : ℕ, exponent = -count := ⟨(-exponent).toNat, by omega⟩
    have quotient : (mantissa : ℚ) * 2 ^ (-(count : ℤ)) + 1 / 2 =
        ((2 * mantissa + 2 ^ count : ℕ) : ℚ) / ((2 * 2 ^ count : ℕ) : ℚ) := by
      rw [zpow_neg, zpow_natCast]
      push_cast
      field_simp
    rw [quotient, Rat.floor_natCast_div_natCast, neg_neg]
    rfl

/-- A finite number is rounded half away from zero. -/
theorem round?_finite (negative : Bool) (mantissa : ℕ) (exponent : ℤ) :
    (finite negative mantissa exponent).round? =
      some (roundAway (signed negative mantissa * 2 ^ exponent)) := by
  have nearest := floor_add_half mantissa exponent
  have scale : (0 : ℚ) < 2 ^ exponent := by positivity
  have magnitude : (0 : ℚ) ≤ mantissa * 2 ^ exponent := by positivity
  change some (signed negative _) = some (roundAway _)
  rw [Option.some_inj, roundAway]
  cases negative with
  | false =>
      rw [show signed false mantissa = mantissa from rfl, Int.cast_natCast,
        if_neg (not_lt.2 magnitude), nearest]
      rfl
  | true =>
      rw [show signed true mantissa = -mantissa from rfl, Int.cast_neg, Int.cast_natCast, neg_mul]
      rcases magnitude.lt_or_eq with above | zero
      · rw [if_pos (neg_lt_zero.2 above), neg_neg, nearest]
        rfl
      · rw [← zero, show ⌊(0 : ℚ) + 1 / 2⌋ = 0 by norm_num] at nearest
        rw [← zero, neg_zero, if_neg (lt_irrefl _), zero_add, show ⌊(1 / 2 : ℚ)⌋ = 0 by norm_num]
        exact congrArg Neg.neg nearest.symm

/-- Only finite numbers are rounded to integers. -/
theorem exists_finite_of_round? {number : Binary64} {value : ℤ}
    (rounds : number.round? = some value) :
    ∃ negative mantissa exponent, number = .finite negative mantissa exponent := by
  cases number with
  | finite negative mantissa exponent => exact ⟨negative, mantissa, exponent, rfl⟩
  | _ => cases rounds

/-- A finite number has a mantissa of at most 53 bits. -/
theorem bounds_of_ofFloat {number : Float} {negative : Bool} {mantissa : ℕ} {exponent : ℤ}
    (taken : ofFloat number = .finite negative mantissa exponent) :
    mantissa < 2 ^ 53 ∧ exponent ≤ 971 := by
  unfold ofFloat at taken
  simp only [] at taken
  split at taken
  · split at taken <;> cases taken
  · next notLast =>
    split at taken
    · cases taken
      simp only [leastMantissa, leastExponent]
      omega
    · cases taken
      simp only [leastMantissa, leastExponent, exponentCount] at notLast ⊢
      omega

/-- A product of at most 53 bits and a power of two is stored as it is. -/
theorem storedInteger_mul_two_pow {mantissa : ℕ} (small : mantissa < 2 ^ 53) (count : ℕ) :
    storedInteger (mantissa * 2 ^ count : ℕ) = (mantissa * 2 ^ count : ℕ) := by
  rcases Nat.eq_zero_or_pos mantissa with rfl | positive
  · rw [zero_mul]
    decide
  · have bits : mantissa.log2 < 53 := (Nat.log2_lt positive.ne').2 small
    have total : (mantissa * 2 ^ count).log2 = mantissa.log2 + count := by
      rw [← Nat.shiftLeft_eq, log2_shiftLeft positive]
    obtain ⟨rest, isRest⟩ : ∃ rest : ℕ, ((mantissa * 2 ^ count).log2 - 52 : ℤ) = count - rest :=
      ⟨52 - mantissa.log2, by omega⟩
    have whole : ((mantissa * 2 ^ count : ℕ) : ℚ) / 2 ^ ((count : ℤ) - rest) =
        ((mantissa * 2 ^ rest : ℕ) : ℤ) := by
      rw [zpow_sub₀ (by norm_num), zpow_natCast, zpow_natCast]
      push_cast
      field_simp
    have stored := storedInteger_natCast (Nat.mul_pos positive (Nat.two_pow_pos count))
    rw [isRest, whole, nearestEven_intCast, ← whole, div_mul_cancel₀ _ (by positivity)] at stored
    exact_mod_cast stored

/-- The magnitude of a finite number that is rounded to an integer. -/
theorem stored_magnitude {mantissa : ℕ} {exponent : ℤ} (small : mantissa < 2 ^ 53)
    (fits : exponent ≤ 971) {magnitude : ℕ}
    (isMagnitude : (if 0 ≤ exponent then mantissa * Nat.pow 2 exponent.toNat
      else (2 * mantissa + Nat.pow 2 (-exponent).toNat) / (2 * Nat.pow 2 (-exponent).toNat)) =
        magnitude) :
    storedInteger magnitude = magnitude ∧ magnitude.log2 < 1024 ∧
      (2 ^ 53 < magnitude → magnitude % 2 = 0) := by
  split at isMagnitude
  · obtain ⟨count, rfl⟩ : ∃ count : ℕ, exponent = count := ⟨exponent.toNat, by omega⟩
    change mantissa * 2 ^ count = magnitude at isMagnitude
    subst isMagnitude
    refine ⟨storedInteger_mul_two_pow small count, ?_, fun large => ?_⟩
    · rcases Nat.eq_zero_or_pos mantissa with rfl | positive
      · rw [zero_mul]
        decide
      · have bits : mantissa.log2 < 53 := (Nat.log2_lt positive.ne').2 small
        rw [← Nat.shiftLeft_eq, log2_shiftLeft positive]
        omega
    · cases count with
      | zero => omega
      | succ count => rw [pow_succ, ← mul_assoc, Nat.mul_mod_left]
  · obtain ⟨count, isCount⟩ : ∃ count : ℕ, (-exponent).toNat = count + 1 :=
      ⟨(-exponent).toNat - 1, by omega⟩
    rw [isCount] at isMagnitude
    change (2 * mantissa + 2 ^ (count + 1)) / (2 * 2 ^ (count + 1)) = magnitude at isMagnitude
    have unit := Nat.two_pow_pos (count + 1)
    have below : magnitude < 2 ^ 53 := by
      rw [← isMagnitude, Nat.div_lt_iff_lt_mul (by omega)]
      generalize 2 ^ (count + 1) = scale at unit
      omega
    exact ⟨storedInteger_of_lt (by simpa using below),
      (log2_lt_of_lt (by decide) below).trans (by decide), fun large => absurd below large.not_gt⟩

/-- A finite number that is rounded to an integer is stored as this integer, which is even if it
takes more than 53 bits. -/
theorem stored_of_round? {number : Float} {value : ℤ}
    (rounds : (ofFloat number).round? = some value) :
    storedInteger value = value ∧ value.natAbs.log2 < 1024 ∧
      (2 ^ 53 < value.natAbs → value % 2 = 0) := by
  obtain ⟨negative, mantissa, exponent, taken⟩ := exists_finite_of_round? rounds
  obtain ⟨small, fits⟩ := bounds_of_ofFloat taken
  rw [taken] at rounds
  have isSigned := Option.some.inj rounds
  obtain ⟨stored, bits, even⟩ := stored_magnitude small fits rfl
  generalize (if 0 ≤ exponent then mantissa * Nat.pow 2 exponent.toNat
    else (2 * mantissa + Nat.pow 2 (-exponent).toNat) / (2 * Nat.pow 2 (-exponent).toNat)) =
      magnitude at stored bits even isSigned
  cases negative with
  | false =>
      obtain rfl : (magnitude : ℤ) = value := isSigned
      exact ⟨stored, bits, fun large => by have := even large; omega⟩
  | true =>
      obtain rfl : -(magnitude : ℤ) = value := isSigned
      rw [Int.natAbs_neg]
      exact ⟨by rw [storedInteger_neg, stored], bits, fun large => by have := even large; omega⟩

/-- A number that is rounded to an integer has the value of this integer. -/
theorem value?_rounded {number : Float} {value : ℤ}
    (rounds : (ofFloat number).round? = some value) :
    (ofFloat (ofFloat number).rounded).value? = some (value : ℚ) := by
  obtain ⟨stored, fits, -⟩ := stored_of_round? rounds
  have asInteger : (ofFloat (Float.ofInt value)).value? = some (value : ℚ) := by
    rw [value?_ofInt (by rwa [stored]), stored]
  obtain ⟨negative, mantissa, exponent, taken⟩ := exists_finite_of_round? rounds
  rw [taken] at rounds ⊢
  unfold rounded
  simp only [rounds]
  split
  · next zero =>
    have negativeZero : ofFloat (-0.0) = .finite true 0 (-1074) := by decide
    rw [zero.1, negativeZero]
    simp [Binary64.value?, signed]
  · exact asInteger

end Binary64
end ScopeScript
