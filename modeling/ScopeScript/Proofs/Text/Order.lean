import Mathlib.Data.String.Basic
import ScopeScript.Text.Bytes

/-!
# The order of texts

Texts are compared character by character. The encoding keeps that order: the bytes of a smaller
character are smaller at the first place where they differ from those of a larger one, and neither
end before that place. So comparing texts and comparing their bytes are the same
(`lt_iff_bytes_lt`).
-/

namespace ScopeScript
namespace Text

/-- The bytes of a text are those of its characters. -/
theorem bytes_eq_flatMap (text : String) :
    bytes text = text.toList.flatMap String.utf8EncodeChar := by
  obtain ⟨chars, rfl⟩ := text.exists_eq_ofList
  simp [bytes, List.utf8Encode]

/-- Numbers of four digits in base 64 are compared digit by digit, from the front. -/
theorem digits_lt_of_lt {a b c d a' b' c' d' : Nat} (small : b < 64 ∧ c < 64 ∧ d < 64)
    (small' : b' < 64 ∧ c' < 64 ∧ d' < 64)
    (smaller : ((a * 64 + b) * 64 + c) * 64 + d < ((a' * 64 + b') * 64 + c') * 64 + d') :
    a < a' ∨ a = a' ∧ (b < b' ∨ b = b' ∧ (c < c' ∨ c = c' ∧ d < d')) := by
  omega

/-- The bytes of a smaller character come first, whatever follows the two characters. -/
theorem encoded_lt_of_lt {left right : Char} (smaller : left < right)
    (leftRest rightRest : List UInt8) :
    String.utf8EncodeChar left ++ leftRest < String.utf8EncodeChar right ++ rightRest := by
  have codes : left.val.toNat < right.val.toNat := smaller
  have range : right.val.toNat < 0x110000 := by
    rcases right.valid with low | high
    · exact lt_trans low (by decide)
    · exact high.2
  have digits (code : Nat) : code =
      ((code / 262144 * 64 + code / 4096 % 64) * 64 + code / 64 % 64) * 64 + code % 64 := by
    omega
  have ordered := digits_lt_of_lt ⟨Nat.mod_lt _ (by decide), Nat.mod_lt _ (by decide),
    Nat.mod_lt _ (by decide)⟩ ⟨Nat.mod_lt _ (by decide), Nat.mod_lt _ (by decide),
    Nat.mod_lt _ (by decide)⟩ (digits left.val.toNat ▸ digits right.val.toNat ▸ codes)
  have continuing (digit : Nat) : (digit % 64 + 0x80) % 2 ^ 8 = digit % 64 + 0x80 := by omega
  have leading (code : Nat) (range : code < 0x110000) :
      (code / 262144 % 8 + 0xf0) % 2 ^ 8 = code / 262144 + 0xf0 := by
    omega
  unfold String.utf8EncodeChar
  dsimp only
  -- The length of an encoding grows with the code, and so does its first byte; at equal length the
  -- bytes are the digits of the code in base 64.
  split_ifs <;>
    simp only [List.cons_append, List.nil_append, List.cons_lt_cons_iff, UInt8.lt_iff_toNat_lt,
      ← UInt8.toNat_inj, UInt8.toNat_ofNat', continuing, leading _ range,
      leading _ (codes.trans range)] <;>
    omega

/-- The encoding keeps the order of characters, and so of texts. -/
theorem flatMap_encoded_lt {left right : List Char} (smaller : left < right) :
    left.flatMap String.utf8EncodeChar < right.flatMap String.utf8EncodeChar := by
  induction smaller with
  | nil =>
      rename_i head tail
      obtain ⟨byte, rest, encoded⟩ :=
        List.exists_cons_of_ne_nil (String.utf8EncodeChar_ne_nil (c := head))
      simp [encoded]
  | cons _ inductionHypothesis =>
      rw [List.flatMap_cons, List.flatMap_cons]
      exact List.append_left_lt inductionHypothesis
  | rel smaller => exact encoded_lt_of_lt smaller _ _

/-- A smaller text has smaller bytes. -/
theorem bytes_lt_of_lt {left right : String} (smaller : left < right) :
    bytes left < bytes right := by
  rw [bytes_eq_flatMap, bytes_eq_flatMap]
  exact flatMap_encoded_lt (String.lt_iff_toList_lt.1 smaller)

/-- Texts are in the order of their bytes. -/
theorem lt_iff_bytes_lt (left right : String) : left < right ↔ bytes left < bytes right := by
  refine ⟨bytes_lt_of_lt, fun smaller => ?_⟩
  rcases lt_trichotomy left right with less | rfl | greater
  · exact less
  · exact absurd smaller (List.lt_irrefl _)
  · exact absurd (bytes_lt_of_lt greater) (List.lt_asymm smaller)

/-- A text comes before another one, byte by byte, or equals it. -/
def ByteLE (left right : String) : Prop :=
  ¬bytes right < bytes left

/-- The order of texts by their bytes is that of texts. -/
theorem byteLE_iff_le {left right : String} : ByteLE left right ↔ left ≤ right := by
  rw [ByteLE, ← lt_iff_bytes_lt, not_lt]

instance : DecidableRel ByteLE := fun left right =>
  inferInstanceAs (Decidable ¬bytes right < bytes left)

instance : IsTrans String ByteLE where
  trans _ _ _ := by simpa only [byteLE_iff_le] using le_trans

instance : Std.Antisymm ByteLE where
  antisymm _ _ := by simpa only [byteLE_iff_le] using le_antisymm

instance : Std.Total ByteLE where
  total left right := by simpa only [byteLE_iff_le] using le_total left right

end Text
end ScopeScript
