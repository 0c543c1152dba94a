import ScopeScript.Decimal.Binary64

/-!
# Reading numbers

A numeral is an optional sign, decimal digits with an optional point and an optional exponent, or
hexadecimal digits behind `0x` with a mandatory power of two; single underscores may separate
digits. The words for infinity and for what is not a number are read in any case. The value is
the nearest number; a numeral that is too large has none.
-/

namespace ScopeScript
namespace Decimal

/-- The two bases of numerals. -/
inductive Base
  | ten
  | sixteen
  deriving DecidableEq, Repr

/-- Lower case of a character of the basic alphabet. -/
def lower (c : Char) : Char :=
  c.toLower

/-- Value of a digit in a base. -/
def digit? (base : Base) (c : Char) : Option Nat :=
  if '0' ≤ c ∧ c ≤ '9' then
    some (c.toNat - 48)
  else if base = .sixteen ∧ 'a' ≤ lower c ∧ lower c ≤ 'f' then
    some ((lower c).toNat - 87)
  else
    none

/-- How many units a digit position is worth. -/
def Base.radix : Base → Nat
  | ten => 10
  | sixteen => 16

/-- The digits read so far: their value, whether there were any, and the number of digits behind
the point once it has been seen. -/
structure Digits where
  value : Nat := 0
  any : Bool := false
  places : Option Nat := none

/-- Read digits, underscores and at most one point; the rest starts with something else. -/
def readDigits (base : Base) : Digits → List Char → Digits × List Char
  | digits, [] => (digits, [])
  | digits, c :: rest =>
      if c = '_' then
        readDigits base digits rest
      else if c = '.' ∧ digits.places.isNone then
        readDigits base { digits with places := some 0 } rest
      else
        match digit? base c with
        | some value =>
            readDigits base
              { value := digits.value * base.radix + value
                any := true
                places := digits.places.map (· + 1) }
              rest
        | none => (digits, c :: rest)

/-- Exponents stop growing here; every numeral with a larger one is out of range or zero. -/
def exponentLimit : Nat := 10000

/-- Read the decimal digits of an exponent, skipping underscores. -/
def readExponentDigits : Nat → List Char → Nat × List Char
  | value, [] => (value, [])
  | value, c :: rest =>
      if c = '_' then
        readExponentDigits value rest
      else
        match digit? .ten c with
        | some digit =>
            readExponentDigits
              (if value < exponentLimit then value * 10 + digit else value) rest
        | none => (value, c :: rest)

/-- Read an exponent behind its letter: a sign and at least one digit. -/
def readExponent? (chars : List Char) : Option (Int × List Char) :=
  let (negative, chars) :=
    match chars with
    | '+' :: rest => (false, rest)
    | '-' :: rest => (true, rest)
    | _ => (false, chars)
  match chars with
  | c :: _ =>
      if (digit? .ten c).isSome then
        let (value, rest) := readExponentDigits 0 chars
        some (Binary64.signed negative value, rest)
      else
        none
  | [] => none

/-- What the character in front of an underscore may be. -/
inductive Neighbour
  | start
  | digit
  | underscore
  | other
  deriving DecidableEq

/-- Whether every underscore stands between two digits, the mark of the base counting as one. -/
def underscoresSeparate (hexadecimal : Bool) : Neighbour → List Char → Bool
  | last, [] => last != .underscore
  | last, c :: rest =>
      if (digit? (if hexadecimal then .sixteen else .ten) c).isSome then
        underscoresSeparate hexadecimal .digit rest
      else if c = '_' then
        last == .digit && underscoresSeparate hexadecimal .underscore rest
      else
        last != .underscore && underscoresSeparate hexadecimal .other rest

/-- Split off a leading sign. -/
def splitSign : List Char → Bool × List Char
  | '+' :: rest => (false, rest)
  | '-' :: rest => (true, rest)
  | chars => (false, chars)

/-- Whether the underscores of an unsigned numeral are well placed. -/
def underscoresAllowed (chars : List Char) : Bool :=
  match chars with
  | '0' :: mark :: rest =>
      if lower mark = 'x' then underscoresSeparate true .digit rest
      else if lower mark = 'b' ∨ lower mark = 'o' then underscoresSeparate false .digit rest
      else underscoresSeparate false .start chars
  | _ => underscoresSeparate false .start chars

/-- Whether a number is finite. -/
def isFinite (number : Float) : Bool :=
  match Binary64.ofFloat number with
  | .finite _ _ _ => true
  | _ => false

/-- Keep a finite number, with the given sign. -/
private def finite? (negative : Bool) (magnitude : Float) : Option Float :=
  if isFinite magnitude then some (if negative then -magnitude else magnitude) else none

/-- Number of decimal digits of a natural number. -/
def digitCount (value : Nat) : Nat :=
  (Nat.toDigits 10 value).length

/-- The number nearest to `value * 10 ^ exponent`; `none` if it is too large. -/
def ofDecimal? (negative : Bool) (value : Nat) (exponent : Int) : Option Float :=
  let magnitude := digitCount value + exponent
  if value = 0 ∨ magnitude < -330 then finite? negative 0.0
  else if 310 < magnitude then none
  else finite? negative (Float.ofScientific value (exponent < 0) exponent.natAbs)

/-- The number nearest to `value * 2 ^ exponent`; `none` if it is too large. -/
def ofBinary? (negative : Bool) (value : Nat) (exponent : Int) : Option Float :=
  let magnitude := value.log2 + exponent
  if value = 0 ∨ magnitude < -1100 then finite? negative 0.0
  else if 1024 < magnitude then none
  else finite? negative (Binary64.toNearest false value exponent)

/-- Read the words for infinity and for what is not a number. -/
def readWord? (chars : List Char) : Option Float :=
  let (negative, body) := splitSign chars
  let word := body.map lower
  if word = "inf".toList ∨ word = "infinity".toList then
    some (if negative then -1.0 / 0.0 else 1.0 / 0.0)
  else if chars.map lower = "nan".toList then
    some (0.0 / 0.0)
  else
    none

/-- Read an unsigned numeral behind the mark of its base. -/
def readUnsigned? (negative : Bool) (base : Base) (chars : List Char) : Option Float := do
  let (digits, rest) := readDigits base {} chars
  guard digits.any
  let places := digits.places.getD 0
  let (exponent, rest) ←
    match rest with
    | c :: tail =>
        if lower c = (match base with | .ten => 'e' | .sixteen => 'p') then readExponent? tail
        else if base = .ten then some (0, rest) else none
    | [] => if base = .ten then some (0, []) else none
  guard rest.isEmpty
  match base with
  | .ten => ofDecimal? negative digits.value (exponent - places)
  | .sixteen => ofBinary? negative digits.value (exponent - 4 * places)

/-- Read a number; `none` if the text is no numeral or its value is too large. -/
def read? (text : String) : Option Float :=
  let chars := text.toList
  match readWord? chars with
  | some number => some number
  | none =>
      let (negative, body) := splitSign chars
      if '_' ∈ body ∧ !underscoresAllowed body then
        none
      else
        match body with
        | '0' :: mark :: c :: rest =>
            if lower mark = 'x' then readUnsigned? negative .sixteen (c :: rest)
            else readUnsigned? negative .ten body
        | _ => readUnsigned? negative .ten body

end Decimal
end ScopeScript
