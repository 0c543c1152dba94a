import ScopeScript.Text.Bytes
import ScopeScript.Text.Printable

/-!
# Quoted texts

A text is shown inside double quotes with escapes: a quote and a backslash get a backslash, the
usual control characters have one-letter escapes, other control characters and stray bytes are
written with two hexadecimal digits, and characters that are not printable with four or eight.
-/

namespace ScopeScript
namespace Text
namespace Quoted

/-- The hexadecimal digit of a number below sixteen, in lower case. -/
def hexDigit (value : Nat) : Char :=
  Char.ofNat (if value < 10 then 48 + value else 87 + value)

/-- The last `count` hexadecimal digits of a number. -/
def hexDigits : Nat → Nat → List Char
  | 0, _ => []
  | count + 1, value => hexDigits count (value / 16) ++ [hexDigit (value % 16)]

/-- The letter behind the backslash for characters with a short escape. -/
def shortEscape? (c : Char) : Option Char :=
  match c.toNat with
  | 7 => some 'a'
  | 8 => some 'b'
  | 9 => some 't'
  | 10 => some 'n'
  | 11 => some 'v'
  | 12 => some 'f'
  | 13 => some 'r'
  | _ => none

/-- The escape of a byte that belongs to no character. -/
def escapeByte (byte : UInt8) : List Char :=
  '\\' :: 'x' :: hexDigits 2 byte.toNat

/-- The quoted form of one character. -/
def escapeChar (c : Char) : List Char :=
  if c = '"' || c = '\\' then
    ['\\', c]
  else if isPrintable c then
    [c]
  else
    match shortEscape? c with
    | some letter => ['\\', letter]
    | none =>
        if c.toNat < 0x20 || c.toNat = 0x7F then '\\' :: 'x' :: hexDigits 2 c.toNat
        else if c.toNat < 0x10000 then '\\' :: 'u' :: hexDigits 4 c.toNat
        else '\\' :: 'U' :: hexDigits 8 c.toNat

/-- Put the escaped characters between double quotes. -/
def enclose (escaped : List Char) : String :=
  String.ofList ('"' :: escaped ++ ['"'])

end Quoted

/-- The quoted form of a text. -/
def quoted (text : String) : String :=
  Quoted.enclose (text.toList.flatMap Quoted.escapeChar)

/-- The quoted form of a byte sequence, which need not be a text. -/
def quotedBytes (bytes : List UInt8) : String :=
  Quoted.enclose <| (pieces bytes).flatMap fun
    | .inl byte => Quoted.escapeByte byte
    | .inr c => Quoted.escapeChar c

end Text
end ScopeScript
