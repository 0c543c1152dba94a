import ScopeScript.Decimal.Reading

/-!
# Written integers

Integers with a sign, in base ten or in the base that a mark in front of them names: `0x` for
sixteen, `0o` or a plain `0` for eight, `0b` for two. They have to fit into a signed 64-bit word.
-/

namespace ScopeScript
namespace Decimal

/-- The least integer of a signed 64-bit word. -/
def leastInteger : Int := -9223372036854775808

/-- The greatest integer of a signed 64-bit word. -/
def greatestInteger : Int := 9223372036854775807

/-- The value of a character as a digit below a radix. -/
def digitBelow? (radix : Nat) (c : Char) : Option Nat :=
  (digit? .sixteen c).filter (· < radix)

/-- The value of digits in a radix, after those of the given value. -/
def readDigitsAfter? (radix : Nat) : Nat → List Char → Option Nat
  | value, [] => some value
  | value, c :: rest => do
      let digit ← digitBelow? radix c
      readDigitsAfter? radix (value * radix + digit) rest

/-- The value of at least one digit in a radix. -/
def readNatural? (radix : Nat) (chars : List Char) : Option Nat :=
  if chars.isEmpty then none else readDigitsAfter? radix 0 chars

/-- The value of an unsigned integer in the base that it names. -/
def readMarked? (chars : List Char) : Option Nat :=
  match chars with
  | '0' :: mark :: rest =>
      match lower mark with
      | 'x' => readNatural? 16 rest
      | 'o' => readNatural? 8 rest
      | 'b' => readNatural? 2 rest
      | _ => readNatural? 8 (mark :: rest)
  | _ => readNatural? 10 chars

/-- An integer that is kept only if it fits into a signed 64-bit word. -/
def fitting? (value : Int) : Option Int :=
  if leastInteger ≤ value ∧ value ≤ greatestInteger then some value else none

/-- Read an integer of any size in the base that it names; underscores are passed over. -/
def readUnbounded? (chars : List Char) : Option Int := do
  let (negative, body) := splitSign (chars.filter (· != '_'))
  return Binary64.signed negative (← readMarked? body)

/-- Read an integer in the base that it names; underscores may only separate digits. -/
def readInteger? (text : String) : Option Int := do
  let chars := text.toList
  guard (underscoresAllowed (splitSign chars).2)
  fitting? (← readUnbounded? chars)

/-- The integer in base ten that a text consists of, moved into the range of a signed 64-bit word;
zero if it is none. -/
def integerOrZero (text : String) : Int :=
  let (negative, body) := splitSign text.toList
  match readNatural? 10 body with
  | some magnitude =>
      max leastInteger (min greatestInteger (Binary64.signed negative magnitude))
  | none => 0

end Decimal
end ScopeScript
