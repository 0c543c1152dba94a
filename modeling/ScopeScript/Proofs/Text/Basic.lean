import ScopeScript.Proofs.Parser.Grammar

/-!
# Texts of the basic alphabet

A character of the basic alphabet takes one byte. So a text of such characters and its bytes
correspond one by one, in both directions.
-/

namespace ScopeScript
namespace Text

/-- The character of a byte below 128. -/
def charOf (byte : UInt8) : Char :=
  Char.ofNat byte.toNat

theorem toNat_charOf {byte : UInt8} (basic : byte < 128) : (charOf byte).toNat = byte.toNat := by
  have small : byte.toNat < 128 := UInt8.lt_iff_toNat_lt.1 basic
  rw [charOf, Char.ofNat, dif_pos (.inl (by omega))]
  rfl

theorem byteOf_eq_ofNat (c : Char) : byteOf c = UInt8.ofNat c.toNat := rfl

/-- A basic byte is that of its character. -/
theorem byteOf_charOf {byte : UInt8} (basic : byte < 128) : byteOf (charOf byte) = byte := by
  rw [byteOf_eq_ofNat, toNat_charOf basic, UInt8.ofNat_toNat]

/-- A character of the basic alphabet takes one byte. -/
theorem utf8EncodeChar_basic {c : Char} (basic : c.toNat < 128) :
    String.utf8EncodeChar c = [byteOf c] := by
  have small : c.val.toNat ≤ 127 := Nat.le_of_lt_succ basic
  rw [byteOf_eq_ofNat, String.utf8EncodeChar]
  exact if_pos small

/-- The bytes of all other characters are large. -/
theorem basic_of_mem {c : Char} {byte : UInt8} (member : byte ∈ String.utf8EncodeChar c)
    (basic : byte < 128) : c.toNat < 128 := by
  have small : byte.toNat < 128 := UInt8.lt_iff_toNat_lt.1 basic
  refine Nat.lt_of_not_le fun large => ?_
  have large : ¬ c.val.toNat ≤ 127 := Nat.not_le.2 large
  unfold String.utf8EncodeChar at member
  dsimp only at member
  rw [if_neg large] at member
  repeat' split at member
  all_goals
    simp only [List.mem_cons, List.not_mem_nil, or_false, ← UInt8.toNat_inj,
      UInt8.toNat_ofNat'] at member
    omega

/-- A byte of the basic alphabet is a character by itself. -/
theorem utf8EncodeChar_of_mem {c : Char} {byte : UInt8} (member : byte ∈ String.utf8EncodeChar c)
    (basic : byte < 128) : String.utf8EncodeChar c = [byte] := by
  have single := utf8EncodeChar_basic (basic_of_mem member basic)
  rw [single, List.mem_singleton] at member
  rw [single, member]

/-- Basic characters have one byte each. -/
theorem bytes_ofList {chars : List Char} (basic : ∀ c ∈ chars, c.toNat < 128) :
    bytes (String.ofList chars) = chars.map byteOf := by
  have encoded : bytes (String.ofList chars) = chars.flatMap String.utf8EncodeChar := by
    simp [bytes, List.utf8Encode]
  rw [encoded, List.flatMap_def,
    List.map_congr_left fun c member => utf8EncodeChar_basic (basic c member), ← List.flatMap_def,
    ← List.map_eq_flatMap]

/-- Bytes below 128 are the bytes of their characters. -/
theorem bytes_charOf {bytes : List UInt8} (basic : ∀ byte ∈ bytes, byte < 128) :
    Text.bytes (String.ofList (bytes.map charOf)) = bytes := by
  have small : ∀ c ∈ bytes.map charOf, c.toNat < 128 := by
    simp only [List.mem_map, forall_exists_index, and_imp, forall_apply_eq_imp_iff₂]
    intro byte member
    rw [toNat_charOf (basic byte member)]
    exact UInt8.lt_iff_toNat_lt.1 (basic byte member)
  have same : ∀ byte ∈ bytes, (byteOf ∘ charOf) byte = id byte :=
    fun byte member => byteOf_charOf (basic byte member)
  rw [bytes_ofList small, List.map_map, List.map_congr_left same, List.map_id]

/-- Basic bytes are one character each. -/
theorem ofBytes_basic {bytes : List UInt8} (basic : ∀ byte ∈ bytes, byte < 128) :
    ofBytes bytes = String.ofList (bytes.map charOf) := by
  rw [← ofBytes_bytes (String.ofList (bytes.map charOf)), bytes_charOf basic]

/-- Basic bytes are those of the text they make. -/
theorem bytes_ofBytes {bytes : List UInt8} (basic : ∀ byte ∈ bytes, byte < 128) :
    Text.bytes (ofBytes bytes) = bytes := by
  rw [ofBytes_basic basic, bytes_charOf basic]

end Text
end ScopeScript
