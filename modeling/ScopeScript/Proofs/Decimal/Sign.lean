import Mathlib
import ScopeScript.Decimal.Shortest

/-!
# The sign of a number that was read

Numbers are written with a sign in the first of their 64 bits. Rounding, products and quotients of
numbers without that bit do not have it either, so the number nearest to a decimal has none
(`ofScientific_lt`).
-/

namespace ScopeScript
namespace Decimal

open Float.Model.UnpackedFloat
open Float.Model (UnpackedFloat Format)

/-- A number that is no negative one. -/
def Unsigned : UnpackedFloat → Prop
  | .notANumber => True
  | .infinity sign | .zero sign | .finite sign _ _ _ => sign = .positive

/-- A positive sign leaves the highest bit clear. -/
theorem packComponents_lt (exponent : BitVec 11) (mantissa : BitVec 52) :
    (packComponents Format.binary64 .positive exponent mantissa).toNat < 2 ^ 63 := by
  have withoutSign : (packComponents Format.binary64 .positive exponent mantissa).toNat =
      (exponent ++ mantissa).toNat := by
    simp only [packComponents, Sign.toBitVec, BitVec.toNat_append]
    simp
  rw [withoutSign]
  exact (exponent ++ mantissa).isLt

/-- An unsigned number is packed without the sign bit. -/
theorem pack_lt {number : UnpackedFloat} (unsigned : Unsigned number) :
    (pack Format.binary64 number).toNat < 2 ^ 63 := by
  cases number with
  | notANumber => exact packComponents_lt _ _
  | infinity sign =>
      cases unsigned
      exact packComponents_lt _ _
  | zero sign =>
      cases unsigned
      exact packComponents_lt _ _
  | finite sign mantissa exponent positive =>
      cases unsigned
      simp only [pack]
      split
      · exact packComponents_lt _ _
      · split
        · exact packComponents_lt _ _
        · exact packComponents_lt _ _

/-- What is unpacked without the sign bit is unsigned. -/
theorem unsigned_unpack {bits : BitVec Format.binary64.numBits} (small : bits.toNat < 2 ^ 63) :
    Unsigned (unpack Format.binary64 bits) := by
  have zero : @unpackSign Format.binary64 bits = 0#1 := by
    apply BitVec.eq_of_toNat_eq
    simp [unpackSign]
    omega
  have sign : Sign.ofBitVec (@unpackSign Format.binary64 bits) = .positive := by
    rw [zero]
    rfl
  unfold unpack
  simp only [sign]
  split
  · split <;> simp [Unsigned]
  · split
    · split <;> simp [Unsigned]
    · simp [Unsigned]

/-- Rounding keeps the sign. -/
theorem unsigned_roundWithAccuracy (mantissa : Nat) (exponent : Int) (accuracy : Accuracy) :
    Unsigned (roundWithAccuracy Format.binary64 .positive mantissa exponent accuracy) := by
  unfold roundWithAccuracy
  simp only []
  split <;> rfl

/-- Products of unsigned numbers are unsigned. -/
theorem unsigned_mul {left right : UnpackedFloat} (leftUnsigned : Unsigned left)
    (rightUnsigned : Unsigned right) : Unsigned (mul Format.binary64 left right) := by
  cases left <;> cases right <;> cases leftUnsigned <;> cases rightUnsigned <;>
    first
    | trivial
    | rfl
    | exact unsigned_roundWithAccuracy _ _ _

/-- And so are quotients. -/
theorem unsigned_div {left right : UnpackedFloat} (leftUnsigned : Unsigned left)
    (rightUnsigned : Unsigned right) : Unsigned (div Format.binary64 left right) := by
  cases left <;> cases right <;> cases leftUnsigned <;> cases rightUnsigned <;>
    first
    | trivial
    | rfl
    | exact unsigned_roundWithAccuracy _ _ _

theorem unsigned_ofNat (value : Nat) : Unsigned (ofNat Format.binary64 value) := by
  unfold ofNat ofInt UnpackedFloat.normalize
  cases value with
  | zero => rfl
  | succ value =>
      have positive : compare ((value + 1 : Nat) : Int) 0 = .gt := by
        rw [Int.compare_eq_gt]
        omega
      rw [positive]
      exact unsigned_roundWithAccuracy _ _ _

/-- Decimals are converted to unsigned numbers. -/
theorem unsigned_ofScientific (value : Nat) (exponent : Int) :
    Unsigned (ofScientific Format.binary64 value exponent) := by
  unfold ofScientific
  split
  · rfl
  · split
    · rfl
    · split
      · rfl
      · split
        · exact unsigned_mul rfl rfl
        · exact unsigned_div rfl rfl

theorem unsigned_of_lt {number : Float} (small : number.toBits.toNat < 2 ^ 63) :
    Unsigned number.toModel.unpack :=
  unsigned_unpack small

theorem mul_lt {left right : Float} (leftSmall : left.toBits.toNat < 2 ^ 63)
    (rightSmall : right.toBits.toNat < 2 ^ 63) : (left * right).toBits.toNat < 2 ^ 63 :=
  pack_lt (unsigned_mul (unsigned_of_lt leftSmall) (unsigned_of_lt rightSmall))

theorem div_lt {left right : Float} (leftSmall : left.toBits.toNat < 2 ^ 63)
    (rightSmall : right.toBits.toNat < 2 ^ 63) : (left / right).toBits.toNat < 2 ^ 63 :=
  pack_lt (unsigned_div (unsigned_of_lt leftSmall) (unsigned_of_lt rightSmall))

theorem toFloat_lt (value : UInt64) : value.toFloat.toBits.toNat < 2 ^ 63 :=
  pack_lt (unsigned_ofNat value.toNat)

/-- The powers of ten in the table are unsigned. -/
theorem powersOfTen_lt : ∀ power ∈ Float.exactlyRepresentablePowersOfTen.toList,
    power.toBits.toNat < 2 ^ 63 := by
  decide

/-- The number nearest to a decimal has no sign. -/
theorem ofScientific_lt (value : Nat) (fraction : Bool) (places : Nat) :
    (Float.ofScientific value fraction places).toBits.toNat < 2 ^ 63 := by
  unfold Float.ofScientific
  split
  · rename_i small
    have inside : places < Float.exactlyRepresentablePowersOfTen.size :=
      Nat.lt_succ_of_le small.2
    have power := powersOfTen_lt Float.exactlyRepresentablePowersOfTen[places] (by simp)
    simp only []
    split
    · exact div_lt (toFloat_lt _) power
    · exact mul_lt (toFloat_lt _) power
  · exact pack_lt (unsigned_ofScientific _ _)

end Decimal
end ScopeScript
