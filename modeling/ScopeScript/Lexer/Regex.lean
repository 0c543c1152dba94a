import ScopeScript.Lexer.Rule

/-!
# Regular expressions over bytes

A regular expression is matched by following its residuals: what remains to be matched behind a
byte. There may be several residuals, and a text can no longer grow into a match when none is
left. The number of different residuals is bounded by the size of the expression, so matching
keeps a short list of them without repetitions.
-/

namespace ScopeScript
namespace Lexer

/-- A set of bytes, given by ranges whose ends belong to them; an inverted class holds all bytes
outside of the ranges. -/
structure ByteClass where
  ranges : List (UInt8 × UInt8)
  inverted : Bool
  deriving DecidableEq

namespace ByteClass

/-- The class of a single byte. -/
def one (byte : UInt8) : ByteClass :=
  ⟨[(byte, byte)], false⟩

/-- The class of all bytes. -/
def all : ByteClass :=
  ⟨[], true⟩

/-- The class of the bytes that do not belong to a class. -/
def invert (bytes : ByteClass) : ByteClass :=
  { bytes with inverted := !bytes.inverted }

/-- Whether a byte belongs to a class. -/
def contains (bytes : ByteClass) (byte : UInt8) : Bool :=
  bytes.inverted != bytes.ranges.any fun (low, high) => low ≤ byte && byte ≤ high

@[simp] theorem contains_one (byte other : UInt8) :
    (one byte).contains other = (byte ≤ other && other ≤ byte) := by
  simp [contains, one]

@[simp] theorem contains_all (byte : UInt8) : all.contains byte = true := rfl

@[simp] theorem contains_invert (bytes : ByteClass) (byte : UInt8) :
    bytes.invert.contains byte = !bytes.contains byte := by
  cases inverted : bytes.inverted <;> simp [contains, invert, inverted]

end ByteClass

/-- A regular expression over bytes. -/
inductive Regex
  | empty
  | oneOf (bytes : ByteClass)
  | sequence (first second : Regex)
  | either (left right : Regex)
  | anyNumber (body : Regex)
  | atLeastOne (body : Regex)
  | atMostOne (body : Regex)
  deriving DecidableEq

namespace Regex

/-- Whether an expression matches the empty text. -/
def nullable : Regex → Bool
  | empty => true
  | oneOf _ => false
  | sequence first second => first.nullable && second.nullable
  | either left right => left.nullable || right.nullable
  | anyNumber _ => true
  | atLeastOne body => body.nullable
  | atMostOne _ => true

/-- One expression behind another; nothing stands in front of the second if the first is
empty. -/
def followedBy : Regex → Regex → Regex
  | empty, second => second
  | first, second => sequence first second

/-- What remains to be matched behind a byte. -/
def residuals (byte : UInt8) : Regex → List Regex
  | empty => []
  | oneOf bytes => if bytes.contains byte then [empty] else []
  | sequence first second =>
      (first.residuals byte).map (·.followedBy second) ++
        if first.nullable then second.residuals byte else []
  | either left right => left.residuals byte ++ right.residuals byte
  | anyNumber body | atLeastOne body => (body.residuals byte).map (·.followedBy (anyNumber body))
  | atMostOne body => body.residuals byte

/-- What remains of any of several expressions behind a byte, without repetitions. -/
def step (byte : UInt8) (states : List Regex) : List Regex :=
  (states.flatMap (·.residuals byte)).eraseDups

/-- Number of bytes of the longest match of any of several expressions. -/
def longestOf? : List Regex → List UInt8 → Option Nat
  | states, [] => if states.any nullable then some 0 else none
  | states, byte :: rest =>
      let longer? :=
        match step byte states with
        | [] => none
        | next => longestOf? next rest
      match longer? with
      | some size => some (size + 1)
      | none => if states.any nullable then some 0 else none

/-- Number of leading bytes that may still grow into a match of one of several expressions. -/
def viableOf : List Regex → List UInt8 → Nat
  | _, [] => 0
  | states, byte :: rest =>
      match step byte states with
      | [] => 0
      | next => viableOf next rest + 1

end Regex

/-- What a regular expression matches. -/
def Pattern.ofRegex (regex : Regex) : Pattern where
  longest? := Regex.longestOf? [regex]
  viable := Regex.viableOf [regex]

end Lexer
end ScopeScript
