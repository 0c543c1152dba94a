import ScopeScript.Proofs.Lexer.Spelling
import ScopeScript.Proofs.Text.Basic

/-!
# Escaping and its inverse

`Escapes quote bytes written` relates bytes to a way to write them between quotes. What is written
contains no quote that no backslash takes with it, so it is one quoted text for the lexer, and
resolving the escapes gives the bytes back. Quoting a text of printable and the usual blank
characters is such a way to write it, so it is read as what it was
(`escapes_quoted`).
-/

namespace ScopeScript
namespace Token

/-- Bytes and a way to write them between quotes. -/
inductive Escapes (quote : UInt8) : List UInt8 → List UInt8 → Prop
  | nil : Escapes quote [] []
  | plain {byte : UInt8} {bytes written : List UInt8} :
      byte ≠ quote → byte ≠ Text.byteOf '\\' → Escapes quote bytes written →
      Escapes quote (byte :: bytes) (byte :: written)
  | escaped {byte : UInt8} {bytes written : List UInt8} :
      Escapes quote bytes written →
      Escapes quote (unescaped byte :: bytes) (Text.byteOf '\\' :: byte :: written)

namespace Escapes

variable {quote : UInt8} {bytes written : List UInt8}

/-- A text written by escapes is closed by the quote behind it. -/
theorem throughQuote (escapes : Escapes quote bytes written) (isQuote : isQuoteByte quote = true) :
    Lexer.Pattern.throughQuote quote (some (Text.byteOf '\\')) (written ++ [quote]) =
      some (written.length + 1) := by
  have different : Text.byteOf '\\' ≠ quote := by
    rintro rfl
    revert isQuote
    decide
  induction escapes with
  | nil => exact Lexer.Pattern.throughQuote_quote _ _ _
  | plain notQuote notEscape _ inductionHypothesis =>
      rw [List.cons_append,
        Lexer.Pattern.throughQuote_plain notQuote (by simpa using notEscape), inductionHypothesis]
      rfl
  | escaped _ inductionHypothesis =>
      rw [List.cons_append, List.cons_append,
        Lexer.Pattern.throughQuote_escape different rfl, inductionHypothesis]
      rfl

/-- Resolving the escapes gives the bytes that were written. -/
theorem resolveEscapes (escapes : Escapes quote bytes written) :
    Token.resolveEscapes written = bytes := by
  induction escapes with
  | nil => rfl
  | @plain byte bytes written _ notEscape _ inductionHypothesis =>
      cases written with
      | nil =>
          rw [← inductionHypothesis]
          rfl
      | cons next rest => rw [Token.resolveEscapes, if_neg notEscape, inductionHypothesis]
  | escaped _ inductionHypothesis => rw [Token.resolveEscapes, if_pos rfl, inductionHypothesis]

/-- Texts that are written by escapes may be joined. -/
theorem append {others otherWritten : List UInt8} (first : Escapes quote bytes written)
    (second : Escapes quote others otherWritten) :
    Escapes quote (bytes ++ others) (written ++ otherWritten) := by
  induction first with
  | nil => exact second
  | plain notQuote notEscape _ inductionHypothesis =>
      exact .plain notQuote notEscape inductionHypothesis
  | escaped _ inductionHypothesis => exact .escaped inductionHypothesis

/-- Between quotes, what is written is one token. -/
theorem spells (escapes : Escapes quote bytes written) (isQuote : isQuoteByte quote = true) :
    Spells (quote :: written ++ [quote]) [(.text, quote :: written ++ [quote])] fun _ => True :=
  spells_text isQuote (escapes.throughQuote isQuote)

/-- Removing the quotes and resolving the escapes gives the bytes back. -/
theorem unquote (escapes : Escapes quote bytes written) :
    Token.unquote (quote :: written ++ [quote]) = bytes := by
  unfold Token.unquote
  rw [if_neg (by simp)]
  simpa using escapes.resolveEscapes

end Escapes

end Token

namespace Text

/-- Printable characters of the basic alphabet, line breaks and tabs. -/
def isPlain (c : Char) : Bool :=
  (32 ≤ c.toNat && c.toNat ≤ 126) || c == '\n' || c == '\t' || c == '\r'

theorem byteOf_ne {c other : Char} (basic : c.toNat < 128) (otherBasic : other.toNat < 128)
    (different : c ≠ other) : byteOf c ≠ byteOf other := by
  intro same
  rw [byteOf_eq_ofNat, byteOf_eq_ofNat, ← UInt8.toNat_inj, UInt8.toNat_ofNat',
    UInt8.toNat_ofNat'] at same
  exact different (Char.toNat_inj.1 (by omega))

/-- The visible ASCII characters and the blank are printable. -/
theorem isPrintable_of_basic {c : Char} (least : 32 ≤ c.toNat) (most : c.toNat ≤ 126) :
    isPrintable c = true := by
  refine List.any_eq_true.2 ⟨(0x20, 0x7E), List.mem_cons_self, ?_⟩
  simpa using ⟨least, most⟩

/-- The quoted form of a plain character is the character itself, or a backslash and a letter that
stands for it. -/
theorem escapeChar_of_isPlain {c : Char} (plain : isPlain c = true) :
    (Quoted.escapeChar c = [c] ∧ c ≠ '"' ∧ c ≠ '\\') ∨
      ∃ letter, Quoted.escapeChar c = ['\\', letter] ∧ letter.toNat < 128 ∧
        Token.unescaped (byteOf letter) = byteOf c := by
  simp only [isPlain, Bool.or_eq_true, Bool.and_eq_true, decide_eq_true_eq, beq_iff_eq] at plain
  rcases plain with ((⟨least, most⟩ | rfl) | rfl) | rfl
  · by_cases isQuote : c = '"'
    · exact .inr ⟨'"', by rw [isQuote]; rfl, by decide, by rw [isQuote]; decide⟩
    · by_cases isBackslash : c = '\\'
      · exact .inr ⟨'\\', by rw [isBackslash]; rfl, by decide, by rw [isBackslash]; decide⟩
      · refine .inl ⟨?_, isQuote, isBackslash⟩
        simp [Quoted.escapeChar, isQuote, isBackslash, isPrintable_of_basic least most]
  · exact .inr ⟨'n', by decide +kernel, by decide, by decide⟩
  · exact .inr ⟨'t', by decide +kernel, by decide, by decide⟩
  · exact .inr ⟨'r', by decide +kernel, by decide, by decide⟩

/-- Plain characters are ASCII. -/
theorem toNat_of_isPlain {c : Char} (plain : isPlain c = true) : c.toNat < 128 := by
  simp only [isPlain, Bool.or_eq_true, Bool.and_eq_true, decide_eq_true_eq, beq_iff_eq] at plain
  rcases plain with ((⟨_, most⟩ | rfl) | rfl) | rfl
  · omega
  · decide
  · decide
  · decide

/-- A plain character is written as itself or behind a backslash. -/
theorem escapes_escapeChar {c : Char} (plain : isPlain c = true) :
    Token.Escapes (byteOf '"') [byteOf c] ((Quoted.escapeChar c).map byteOf) := by
  have basic := toNat_of_isPlain plain
  rcases escapeChar_of_isPlain plain with ⟨shown, notQuote, notBackslash⟩ | ⟨letter, shown, _, same⟩
  · rw [shown]
    exact .plain (byteOf_ne basic (by decide) notQuote) (byteOf_ne basic (by decide) notBackslash)
      .nil
  · rw [shown, ← same]
    exact .escaped .nil

/-- And so are all characters of a plain text. -/
theorem escapes_flatMap {chars : List Char} (plain : ∀ c ∈ chars, isPlain c = true) :
    Token.Escapes (byteOf '"') (chars.map byteOf)
      ((chars.flatMap Quoted.escapeChar).map byteOf) := by
  induction chars with
  | nil => exact .nil
  | cons c chars inductionHypothesis =>
      rw [List.forall_mem_cons] at plain
      rw [List.flatMap_cons, List.map_append, List.map_cons, ← List.singleton_append]
      exact (escapes_escapeChar plain.1).append (inductionHypothesis plain.2)

/-- An ASCII text has one byte for each character. -/
theorem bytes_of_toList {text : String} (basic : ∀ c ∈ text.toList, c.toNat < 128) :
    bytes text = text.toList.map byteOf := by
  rw [← bytes_ofList basic, String.ofList_toList]

/-- Quoting a plain text puts a way to write its bytes between quotes. -/
theorem escapes_quoted {text : String} (plain : ∀ c ∈ text.toList, isPlain c = true) :
    ∃ written, bytes (quoted text) = byteOf '"' :: written ++ [byteOf '"'] ∧
      Token.Escapes (byteOf '"') (bytes text) written := by
  have basic : ∀ c ∈ text.toList.flatMap Quoted.escapeChar, c.toNat < 128 := by
    intro c member
    obtain ⟨original, isOriginal, isEscaped⟩ := List.mem_flatMap.1 member
    have originalBasic := toNat_of_isPlain (plain original isOriginal)
    rcases escapeChar_of_isPlain (plain original isOriginal) with
      ⟨shown, -⟩ | ⟨letter, shown, small, -⟩
    · rw [shown, List.mem_singleton] at isEscaped
      rwa [isEscaped]
    · rw [shown] at isEscaped
      rcases List.mem_pair.1 isEscaped with rfl | rfl
      · decide
      · exact small
  refine ⟨(text.toList.flatMap Quoted.escapeChar).map byteOf, ?_, ?_⟩
  · rw [quoted, Quoted.enclose, bytes_ofList]
    · simp
    · simp only [List.cons_append, List.mem_cons, List.mem_append, List.not_mem_nil, or_false]
      rintro c (rfl | member | rfl)
      · decide
      · exact basic c member
      · decide
  · rw [bytes_of_toList fun c member => toNat_of_isPlain (plain c member)]
    exact escapes_flatMap plain

end Text
end ScopeScript
