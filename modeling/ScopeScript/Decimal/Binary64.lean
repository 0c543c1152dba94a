/-!
# Numbers as exact values

A number of the language is a 64-bit binary floating-point number. For everything that has to be
exact it is taken apart into a sign, a mantissa and a power of two. The operations here (integer
part, rounding, remainder, conversion to machine words) work on these parts in integer
arithmetic.
-/

namespace ScopeScript

/-- A floating-point number taken apart. A finite one is `mantissa * 2 ^ exponent`, negated if
`negative` is set; the sign of zero is kept. -/
inductive Binary64
  | notANumber
  | infinite (negative : Bool)
  | finite (negative : Bool) (mantissa : Nat) (exponent : Int)
  deriving DecidableEq, Repr

namespace Binary64

/-- Two to the power of 52, the least mantissa of a number that is not close to zero. -/
def leastMantissa : Nat := 4503599627370496

/-- Two to the power of 63, the bit of the sign. -/
def signBit : Nat := 9223372036854775808

/-- Two to the power of 64, the number of words. -/
def wordCount : Nat := 18446744073709551616

/-- Number of stored exponents. The last one marks what is not finite. -/
def exponentCount : Nat := 2048

/-- Exponent of the least positive number. -/
def leastExponent : Int := -1074

/-- Take a number apart. -/
def ofFloat (number : Float) : Binary64 :=
  let bits : Nat := number.toBits.toNat
  let negative : Bool := signBit ≤ bits
  let biased : Nat := bits / leastMantissa % exponentCount
  let fraction := bits % leastMantissa
  if biased = exponentCount - 1 then
    if fraction = 0 then .infinite negative else .notANumber
  else if biased = 0 then
    .finite negative fraction leastExponent
  else
    .finite negative (leastMantissa + fraction) (leastExponent + biased - 1)

/-- The number nearest to `mantissa * 2 ^ exponent`, with the given sign. -/
def toNearest (negative : Bool) (mantissa : Nat) (exponent : Int) : Float :=
  let magnitude :=
    if 0 ≤ exponent then Float.ofScientific (mantissa * Nat.pow 2 exponent.toNat) false 0
    else Float.ofScientific (mantissa * Nat.pow 5 (-exponent).toNat) true (-exponent).toNat
  if negative then -magnitude else magnitude

/-- Attach a sign to a magnitude. -/
def signed (negative : Bool) (magnitude : Nat) : Int :=
  if negative then -(magnitude : Int) else magnitude

/-- The integer part of a finite number, rounded towards zero. -/
def truncate? : Binary64 → Option Int
  | finite negative mantissa exponent =>
      some <| signed negative <|
        if 0 ≤ exponent then mantissa * Nat.pow 2 exponent.toNat
        else mantissa / Nat.pow 2 (-exponent).toNat
  | _ => none

/-- The integer nearest to a finite number; halves go away from zero. -/
def round? : Binary64 → Option Int
  | finite negative mantissa exponent =>
      some <| signed negative <|
        if 0 ≤ exponent then mantissa * Nat.pow 2 exponent.toNat
        else
          let unit := Nat.pow 2 (-exponent).toNat
          (2 * mantissa + unit) / (2 * unit)
  | _ => none

/-- The nearest integer as a number. What is rounded to zero keeps its sign. -/
def rounded (number : Binary64) : Float :=
  match number, number.round? with
  | finite negative _ _, some value =>
      if value = 0 ∧ negative then -0.0 else Float.ofInt value
  | infinite negative, _ => if negative then -1.0 / 0.0 else 1.0 / 0.0
  | _, _ => 0.0 / 0.0

/-- Whether a finite number has no fractional part. -/
def isInteger : Binary64 → Bool
  | finite _ mantissa exponent => 0 ≤ exponent || mantissa % Nat.pow 2 (-exponent).toNat = 0
  | _ => false

/-- Truncation to a signed 64-bit word. What is not a number gives zero, what lies outside the
range the least word. -/
def toSignedWord (number : Binary64) : Int :=
  match number with
  | notANumber => 0
  | _ =>
      match number.truncate? with
      | some value => if -signBit ≤ value ∧ value < signBit then value else -signBit
      | none => -signBit

/-- Truncation to an unsigned 64-bit word. Negative numbers and what is not a number give zero,
as does what lies outside the range. -/
def toUnsignedWord (number : Binary64) : Nat :=
  match number.truncate? with
  | some value => if 0 < value ∧ value < wordCount then value.toNat else 0
  | none => 0

/-- The remainder of the division of `x` by `y` with quotient rounded towards zero; it has the
sign of `x`. There is none for an infinite `x` or a zero `y`, and an infinite `y` leaves `x` as
it is. -/
def remainder (x y : Float) : Float :=
  match ofFloat x, ofFloat y with
  | finite _ _ _, infinite _ => x
  | finite negative mantissa exponent, finite _ divisor divisorExponent =>
      if divisor = 0 then
        0.0 / 0.0
      else
        let common := min exponent divisorExponent
        let scaled := mantissa * Nat.pow 2 (exponent - common).toNat
        let unit := divisor * Nat.pow 2 (divisorExponent - common).toNat
        toNearest negative (scaled % unit) common
  | _, _ => 0.0 / 0.0

/-- An integer rounded to 53 significant bits, halves to the even neighbour. This is the value
of an integer after it has been stored in a number. -/
def storedInteger (value : Int) : Int :=
  let magnitude := value.natAbs
  if magnitude < 2 * leastMantissa then
    value
  else
    let unit := Nat.pow 2 (magnitude.log2 - 52)
    let quotient := magnitude / unit
    let rest := magnitude % unit
    let rounded :=
      if 2 * rest < unit ∨ (2 * rest = unit ∧ quotient % 2 = 0) then quotient else quotient + 1
    signed (value < 0) (rounded * unit)

end Binary64

end ScopeScript
