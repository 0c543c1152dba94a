import ScopeScript.Proofs.Text.Escaping
import ScopeScript.Proofs.Text.Order

/-!
# Reading quoted texts

The escapes of a quoted text can be told apart: behind a backslash stands a letter that says how
many hexadecimal digits follow, or the character itself or a letter for it. So every text can be
read from its quoted form (`unquoted_quoted`), whatever characters it consists of. In source text
the quoted form is one token (`spells_quoted`), although the language does not give all of these
escapes the same meaning.
-/

namespace ScopeScript
namespace Text
namespace Quoted

/-- The value of a hexadecimal digit in lower case. -/
def hexValue (c : Char) : Nat :=
  if c.toNat < 58 then c.toNat - 48 else c.toNat - 87

/-- The number that hexadecimal digits stand for. -/
def hexNumber (digits : List Char) : Nat :=
  digits.foldl (fun value c => value * 16 + hexValue c) 0

/-- How many hexadecimal digits follow a letter behind a backslash. -/
def hexCount? : Char → Option Nat
  | 'x' => some 2
  | 'u' => some 4
  | 'U' => some 8
  | _ => none

/-- The character that a letter behind a backslash stands for, if no digits follow. -/
def escapedChar : Char → Char
  | 'a' => Char.ofNat 7
  | 'b' => Char.ofNat 8
  | 't' => '\t'
  | 'n' => '\n'
  | 'v' => Char.ofNat 11
  | 'f' => Char.ofNat 12
  | 'r' => '\r'
  | c => c

/-- The characters that a quoted text was made of. -/
def unescape : List Char → List Char
  | [] => []
  | c :: rest =>
      if c = '\\' then
        match rest with
        | [] => []
        | letter :: rest =>
            match hexCount? letter with
            | some count => Char.ofNat (hexNumber (rest.take count)) :: unescape (rest.drop count)
            | none => escapedChar letter :: unescape rest
      else c :: unescape rest
termination_by chars => chars.length

/-! ## Escapes and their characters -/

theorem hexValue_hexDigit : ∀ value < 16, hexValue (hexDigit value) = value := by
  decide

@[simp] theorem length_hexDigits (count value : Nat) : (hexDigits count value).length = count := by
  induction count generalizing value with
  | zero => rfl
  | succ count inductionHypothesis => simp [hexDigits, inductionHypothesis]

/-- Hexadecimal digits are read as the number they write. -/
theorem hexNumber_hexDigits (count value : Nat) :
    hexNumber (hexDigits count value) = value % 16 ^ count := by
  induction count generalizing value with
  | zero => simp [hexDigits, hexNumber, Nat.mod_one]
  | succ count inductionHypothesis =>
      have last := hexValue_hexDigit (value % 16) (Nat.mod_lt _ (by decide))
      have front := inductionHypothesis (value / 16)
      rw [hexNumber] at front ⊢
      rw [hexDigits, List.foldl_append, front, List.foldl_cons, List.foldl_nil, last, pow_succ',
        Nat.mod_mul]
      omega

/-- A character that is written with a number is found again. -/
theorem unescape_hex {letter : Char} {count : Nat} (isCount : hexCount? letter = some count)
    {c : Char} (fits : c.toNat < 16 ^ count) (rest : List Char) :
    unescape ('\\' :: letter :: hexDigits count c.toNat ++ rest) = c :: unescape rest := by
  rw [List.cons_append, List.cons_append, unescape, if_pos rfl]
  simp only [isCount]
  rw [List.take_left' (length_hexDigits _ _), List.drop_left' (length_hexDigits _ _),
    hexNumber_hexDigits, Nat.mod_eq_of_lt fits, Char.ofNat_toNat]

/-- An escape of a single letter is read as its character. -/
theorem unescape_letter {letter : Char} (noDigits : hexCount? letter = none) (rest : List Char) :
    unescape ('\\' :: letter :: rest) = escapedChar letter :: unescape rest := by
  rw [unescape, if_pos rfl]
  simp only [noDigits]

/-- Short escapes are read as the characters they stand for. -/
theorem shortEscape?_eq {c letter : Char} (short : shortEscape? c = some letter) :
    hexCount? letter = none ∧ escapedChar letter = c := by
  have named (code : Nat) (isCode : c.toNat = code) : Char.ofNat code = c := by
    rw [← isCode, Char.ofNat_toNat]
  unfold shortEscape? at short
  split at short <;> first | cases short; exact ⟨rfl, named _ ‹_›⟩ | cases short

/-- The escape of a character tells where it ends and which character it stands for. -/
theorem unescape_escapeChar (c : Char) (rest : List Char) :
    unescape (escapeChar c ++ rest) = c :: unescape rest := by
  unfold escapeChar
  split
  · next guarded =>
    simp only [Bool.or_eq_true, decide_eq_true_eq] at guarded
    rcases guarded with rfl | rfl <;> exact unescape_letter rfl rest
  · next plain =>
    simp only [Bool.or_eq_true, decide_eq_true_eq, not_or] at plain
    split
    · rw [List.singleton_append, unescape.eq_def]
      exact if_neg plain.2
    · split
      · next short =>
        obtain ⟨noDigits, stands⟩ := shortEscape?_eq short
        exact (unescape_letter noDigits rest).trans (by rw [stands])
      · split
        · next control =>
          simp only [Bool.or_eq_true, decide_eq_true_eq] at control
          exact unescape_hex rfl (by omega) rest
        · split
          · next small => exact unescape_hex rfl small rest
          · have range : c.toNat < 0x110000 := by
              rcases c.valid with low | high
              · exact lt_trans low (by decide)
              · exact high.2
            exact unescape_hex rfl (by omega) rest

/-- What has been escaped character by character is read back. -/
theorem unescape_flatMap (chars : List Char) : unescape (chars.flatMap escapeChar) = chars := by
  induction chars with
  | nil => rw [List.flatMap_nil, unescape]
  | cons c chars inductionHypothesis =>
      rw [List.flatMap_cons, unescape_escapeChar, inductionHypothesis]

end Quoted

/-- The text that was quoted. -/
def unquoted (text : String) : String :=
  String.ofList (Quoted.unescape (text.toList.drop 1).dropLast)

/-- Every text is read back from its quoted form. -/
@[simp] theorem unquoted_quoted (text : String) : unquoted (quoted text) = text := by
  simp [unquoted, quoted, Quoted.enclose, Quoted.unescape_flatMap]

/-! ## Quoted texts as tokens -/

/-- Characters that need no escape, as bytes. -/
theorem escapes_plain {chars : List Char} (plain : ∀ c ∈ chars, c ≠ '"' ∧ c ≠ '\\') :
    Token.Escapes (byteOf '"') (chars.flatMap String.utf8EncodeChar)
      (chars.flatMap String.utf8EncodeChar) := by
  have free : ∀ byte ∈ chars.flatMap String.utf8EncodeChar,
      byte ≠ byteOf '"' ∧ byte ≠ byteOf '\\' := by
    intro byte member
    obtain ⟨c, isChar, inside⟩ := List.mem_flatMap.1 member
    have differs {other : Char} (otherBasic : other.toNat < 128) (small : byteOf other < 128)
        (different : c ≠ other) : byte ≠ byteOf other := by
      rintro rfl
      have basic := basic_of_mem inside small
      rw [utf8EncodeChar_basic basic, List.mem_singleton] at inside
      exact byteOf_ne basic otherBasic different inside.symm
    exact ⟨differs (by decide) (by decide) (plain c isChar).1,
      differs (by decide) (by decide) (plain c isChar).2⟩
  generalize chars.flatMap String.utf8EncodeChar = bytes at free ⊢
  induction bytes with
  | nil => exact .nil
  | cons byte bytes inductionHypothesis =>
      rw [List.forall_mem_cons] at free
      exact .plain free.1.1 free.1.2 (inductionHypothesis free.2)

/-- Hexadecimal digits are neither quotes nor backslashes. -/
theorem hexDigits_plain (count value : Nat) :
    ∀ c ∈ Quoted.hexDigits count value, c ≠ '"' ∧ c ≠ '\\' := by
  have digit : ∀ value < 16, Quoted.hexDigit value ≠ '"' ∧ Quoted.hexDigit value ≠ '\\' := by
    decide
  induction count generalizing value with
  | zero => simp [Quoted.hexDigits]
  | succ count inductionHypothesis =>
      rw [Quoted.hexDigits, List.forall_mem_append]
      exact ⟨inductionHypothesis _,
        List.forall_mem_singleton.2 (digit _ (Nat.mod_lt _ (by decide)))⟩

/-- A backslash, a letter and characters that need no escape, as bytes. -/
theorem escapes_backslash {letter : Char} (basic : letter.toNat < 128) {chars : List Char}
    (plain : ∀ c ∈ chars, c ≠ '"' ∧ c ≠ '\\') :
    ∃ content, Token.Escapes (byteOf '"') content
      (('\\' :: letter :: chars).flatMap String.utf8EncodeChar) := by
  rw [List.flatMap_cons, List.flatMap_cons, utf8EncodeChar_basic basic,
    utf8EncodeChar_basic (by decide)]
  exact ⟨_, .escaped (escapes_plain plain)⟩

/-- Every character is written by plain bytes and escapes. -/
theorem exists_escapes_escapeChar (c : Char) :
    ∃ content, Token.Escapes (byteOf '"') content
      ((Quoted.escapeChar c).flatMap String.utf8EncodeChar) := by
  unfold Quoted.escapeChar
  split
  · next guarded =>
    simp only [Bool.or_eq_true, decide_eq_true_eq] at guarded
    rcases guarded with rfl | rfl <;> exact escapes_backslash (by decide) (by simp)
  · next plain =>
    simp only [Bool.or_eq_true, decide_eq_true_eq, not_or] at plain
    split
    · exact ⟨_, escapes_plain (List.forall_mem_singleton.2 plain)⟩
    · split
      · next short =>
        refine escapes_backslash ?_ (by simp)
        unfold Quoted.shortEscape? at short
        split at short <;> cases short <;> decide
      · split
        · exact escapes_backslash (by decide) (hexDigits_plain _ _)
        · split
          · exact escapes_backslash (by decide) (hexDigits_plain _ _)
          · exact escapes_backslash (by decide) (hexDigits_plain _ _)

/-- And so is every text. -/
theorem exists_escapes_flatMap (chars : List Char) :
    ∃ content, Token.Escapes (byteOf '"') content
      ((chars.flatMap Quoted.escapeChar).flatMap String.utf8EncodeChar) := by
  induction chars with
  | nil => exact ⟨_, .nil⟩
  | cons c chars inductionHypothesis =>
      obtain ⟨first, escapes⟩ := exists_escapes_escapeChar c
      obtain ⟨others, escapesOthers⟩ := inductionHypothesis
      rw [List.flatMap_cons, List.flatMap_append]
      exact ⟨_, escapes.append escapesOthers⟩

/-- A quoted text has its escaped characters between two quotes. -/
theorem bytes_quoted (text : String) : bytes (quoted text) = byteOf '"' ::
    (text.toList.flatMap Quoted.escapeChar).flatMap String.utf8EncodeChar ++ [byteOf '"'] := by
  rw [quoted, Quoted.enclose, bytes_eq_flatMap, String.toList_ofList, List.flatMap_append,
    List.flatMap_cons, List.flatMap_singleton, utf8EncodeChar_basic (by decide)]
  rfl

/-- The quoted form of a text is one token. -/
theorem spells_quoted (text : String) :
    Token.Spells (bytes (quoted text)) [(.text, bytes (quoted text))] fun _ => True := by
  obtain ⟨content, escapes⟩ := exists_escapes_flatMap text.toList
  rw [bytes_quoted]
  exact escapes.spells (by decide)

end Text
end ScopeScript
