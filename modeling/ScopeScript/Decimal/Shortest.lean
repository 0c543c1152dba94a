import ScopeScript.Decimal.Reading

/-!
# Writing numbers

A number is written with the fewest digits that read back as the same number, and with the
nearest such digits if there are several. The notation is always positional: there is no
exponent, however large or small the number is.
-/

namespace ScopeScript
namespace Decimal

/-- A decimal `digits * 10 ^ exponent`. -/
structure Scaled where
  digits : Nat
  exponent : Int
  deriving DecidableEq, Repr

/-- The same decimal without zeros at the end of its digits. -/
def Scaled.reduced (decimal : Scaled) : Scaled :=
  if _divisible : decimal.digits ≠ 0 ∧ decimal.digits % 10 = 0 then
    Scaled.reduced ⟨decimal.digits / 10, decimal.exponent + 1⟩
  else
    decimal
termination_by decimal.digits
decreasing_by omega

/-- Whether a decimal reads back as the given number. -/
def Scaled.readsBackAs (decimal : Scaled) (number : Float) : Bool :=
  match ofDecimal? false decimal.digits decimal.exponent with
  | some result => result.toBits == number.toBits
  | none => false

/-- The fraction `mantissa * 2 ^ exponent` as numerator and denominator. -/
def binaryFraction (mantissa : Nat) (exponent : Int) : Nat × Nat :=
  if 0 ≤ exponent then (mantissa * Nat.pow 2 exponent.toNat, 1)
  else (mantissa, Nat.pow 2 (-exponent).toNat)

/-- Whether a fraction is below `10 ^ power`. -/
def belowPower (fraction : Nat × Nat) (power : Int) : Bool :=
  if 0 ≤ power then fraction.1 < fraction.2 * Nat.pow 10 power.toNat
  else fraction.1 * Nat.pow 10 (-power).toNat < fraction.2

/-- The least power of ten above `mantissa * 2 ^ exponent`, for a positive mantissa. The
logarithm is estimated from the number of bits, which leaves few powers to try. -/
def powerAbove (mantissa : Nat) (exponent : Int) : Int :=
  let fraction := binaryFraction mantissa exponent
  let estimate := ((mantissa.log2 : Int) + exponent) * 30103 / 100000
  ([estimate - 1, estimate, estimate + 1].find? (belowPower fraction)).getD (estimate + 2)

/-- The decimals with the given last place next to a fraction: the one below or equal, and the
one above. The nearer one comes first, or the even one if both are equally near. -/
def neighbours (fraction : Nat × Nat) (place : Int) : List Scaled :=
  let (numerator, denominator) :=
    if 0 ≤ place then (fraction.1, fraction.2 * Nat.pow 10 place.toNat)
    else (fraction.1 * Nat.pow 10 (-place).toNat, fraction.2)
  let below := numerator / denominator
  let rest := numerator % denominator
  if 2 * rest < denominator ∨ (2 * rest = denominator ∧ below % 2 = 0) then
    [⟨below, place⟩, ⟨below + 1, place⟩]
  else [⟨below + 1, place⟩, ⟨below, place⟩]

/-- No number needs more digits than this to be told apart from its neighbours. -/
def digitLimit : Nat := 17

/-- The shortest decimal that reads back as the positive number `mantissa * 2 ^ exponent`. -/
def shortest? (number : Float) (mantissa : Nat) (exponent : Int) : Option Scaled :=
  let fraction := binaryFraction mantissa exponent
  let power := powerAbove mantissa exponent
  (List.range digitLimit).findSome? fun (count : Nat) =>
    (neighbours fraction (power - (count + 1 : Nat))).find? (·.readsBackAs number)

/-- The decimal that equals `mantissa * 2 ^ exponent`. -/
def exactly (mantissa : Nat) (exponent : Int) : Scaled :=
  if 0 ≤ exponent then ⟨mantissa * Nat.pow 2 exponent.toNat, 0⟩
  else ⟨mantissa * Nat.pow 5 (-exponent).toNat, exponent⟩

/-- Positional notation of a decimal. -/
def Scaled.positional (decimal : Scaled) : String :=
  let digits := Nat.toDigits 10 decimal.digits
  if 0 ≤ decimal.exponent then
    String.ofList (digits ++ List.replicate decimal.exponent.toNat '0')
  else
    let places := (-decimal.exponent).toNat
    let padded := List.replicate (places + 1 - digits.length) '0' ++ digits
    let split := padded.length - places
    String.ofList (padded.take split ++ '.' :: padded.drop split)

/-- Written form of a number. -/
def format (number : Float) : String :=
  match Binary64.ofFloat number with
  | .notANumber => "NaN"
  | .infinite negative => if negative then "-Inf" else "+Inf"
  | .finite negative mantissa exponent =>
      let magnitude := if negative then -number else number
      let text :=
        if mantissa = 0 then "0"
        else
          let decimal := (shortest? magnitude mantissa exponent).getD (exactly mantissa exponent)
          decimal.reduced.positional
      if negative then "-" ++ text else text

end Decimal
end ScopeScript
