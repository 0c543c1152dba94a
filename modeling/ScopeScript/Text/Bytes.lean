/-!
# Texts as bytes

A source text is scanned and measured in bytes. This module converts between texts and their
bytes and splits an arbitrary byte sequence into characters and bytes that belong to none.
-/

namespace ScopeScript
namespace Text

/-- The bytes of a text. -/
def bytes (text : String) : List UInt8 :=
  text.toUTF8.data.toList

/-- The text that has the given bytes; the empty text if there is none. -/
def ofBytes (bytes : List UInt8) : String :=
  (String.fromUTF8? ⟨bytes.toArray⟩).getD ""

/-- The byte of a character of the basic alphabet. -/
def byteOf (c : Char) : UInt8 :=
  c.toUInt8

/-- Number of bytes of a text. -/
def size (text : String) : Nat :=
  text.utf8ByteSize

/-- Whether a byte continues a character of several bytes. -/
def isContinuation (byte : UInt8) : Bool :=
  0x80 ≤ byte && byte < 0xC0

/-- The payload of a continuation byte. -/
private def payload (byte : UInt8) : Nat :=
  byte.toNat % 64

/-- The character encoded by the leading bytes, together with the number of bytes it takes.
Overlong forms, surrogates and values beyond the last code point encode nothing. -/
def leadingChar? : List UInt8 → Option (Char × Nat)
  | [] => none
  | a :: rest =>
      if a < 0x80 then
        some (Char.ofNat a.toNat, 1)
      else
        match rest with
        | [] => none
        | b :: rest =>
            if !isContinuation b then
              none
            else if 0xC2 ≤ a && a < 0xE0 then
              some (Char.ofNat (a.toNat % 32 * 64 + payload b), 2)
            else
              match rest with
              | [] => none
              | c :: rest =>
                  if !isContinuation c then
                    none
                  else if 0xE0 ≤ a && a < 0xF0 then
                    let code := (a.toNat % 16 * 64 + payload b) * 64 + payload c
                    if code < 0x800 || (0xD800 ≤ code && code < 0xE000) then none
                    else some (Char.ofNat code, 3)
                  else
                    match rest with
                    | [] => none
                    | d :: _ =>
                        if isContinuation d && 0xF0 ≤ a && a < 0xF5 then
                          let code :=
                            ((a.toNat % 8 * 64 + payload b) * 64 + payload c) * 64 + payload d
                          if code < 0x10000 || 0x10FFFF < code then none
                          else some (Char.ofNat code, 4)
                        else
                          none

/-- Split bytes into characters and stray bytes; the first argument bounds the number of
pieces. -/
def piecesWithin : Nat → List UInt8 → List (UInt8 ⊕ Char)
  | 0, _ => []
  | _, [] => []
  | bound + 1, byte :: rest =>
      match leadingChar? (byte :: rest) with
      | some (c, width) => .inr c :: piecesWithin bound (rest.drop (width - 1))
      | none => .inl byte :: piecesWithin bound rest

/-- Split bytes into characters and bytes that belong to no character. -/
def pieces (bytes : List UInt8) : List (UInt8 ⊕ Char) :=
  piecesWithin bytes.length bytes

end Text
end ScopeScript
