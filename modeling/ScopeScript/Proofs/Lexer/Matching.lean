import Mathlib.Data.List.TakeWhile
import ScopeScript.Lexer.Regex

/-!
# What patterns match

`Regex.Matches` says which texts a regular expression matches. `Pattern.Finds pattern language` says
that a pattern computes the size of the longest prefix of its input that belongs to a language. Each
kind of pattern finds the matches of a regular expression: a fixed sequence of bytes, runs, comments
to the end of the line, comments up to the first closing sign, quoted texts with escapes, and
numbers.

The two patterns that look for their own end are shown by one argument. The search comes to its end
at the last byte of a text exactly if the text is matched, and what stands behind that end makes no
difference (`Pattern.Finds.search`).
-/

namespace ScopeScript
namespace Lexer

namespace Regex

/-- An expression matches a text. -/
def Matches : Regex → List UInt8 → Prop
  | empty, text => text = []
  | oneOf bytes, text => ∃ byte, text = [byte] ∧ bytes.contains byte = true
  | sequence first second, text =>
      ∃ front back, text = front ++ back ∧ first.Matches front ∧ second.Matches back
  | either left right, text => left.Matches text ∨ right.Matches text
  | anyNumber body, text =>
      ∃ parts : List (List UInt8), text = parts.flatten ∧ ∀ part ∈ parts, body.Matches part
  | atLeastOne body, text =>
      ∃ parts : List (List UInt8),
        parts ≠ [] ∧ text = parts.flatten ∧ ∀ part ∈ parts, body.Matches part
  | atMostOne body, text => text = [] ∨ body.Matches text

/-- The empty text is matched as `nullable` says. -/
theorem matches_nil_iff (regex : Regex) : regex.Matches [] ↔ regex.nullable = true := by
  induction regex with
  | empty => simp [Matches, nullable]
  | oneOf bytes => simp [Matches, nullable]
  | sequence first second firstHypothesis secondHypothesis =>
      simp only [Matches, nullable, Bool.and_eq_true, ← firstHypothesis, ← secondHypothesis]
      constructor
      · rintro ⟨front, back, nothing, frontMatches, backMatches⟩
        obtain ⟨rfl, rfl⟩ := List.append_eq_nil_iff.1 nothing.symm
        exact ⟨frontMatches, backMatches⟩
      · rintro ⟨frontMatches, backMatches⟩
        exact ⟨[], [], rfl, frontMatches, backMatches⟩
  | either left right leftHypothesis rightHypothesis =>
      simp [Matches, nullable, leftHypothesis, rightHypothesis]
  | anyNumber body _ =>
      simp only [Matches, nullable, iff_true]
      exact ⟨[], rfl, by simp⟩
  | atLeastOne body bodyHypothesis =>
      simp only [Matches, nullable, ← bodyHypothesis]
      constructor
      · rintro ⟨parts, someParts, nothing, partsMatch⟩
        obtain ⟨part, member⟩ := List.exists_mem_of_ne_nil parts someParts
        have blank : part = [] := List.flatten_eq_nil_iff.1 nothing.symm part member
        exact blank ▸ partsMatch part member
      · intro bodyMatches
        exact ⟨[[]], by simp, rfl, by simpa using bodyMatches⟩
  | atMostOne body _ => simp [Matches, nullable]

/-- An expression matches single bytes only, those of a class. -/
def IsClass (regex : Regex) (isMember : UInt8 → Bool) : Prop :=
  ∀ text, regex.Matches text ↔ ∃ byte, text = [byte] ∧ isMember byte = true

theorem isClass_oneOf (bytes : ByteClass) : (oneOf bytes).IsClass bytes.contains :=
  fun _ => Iff.rfl

/-- The union of two classes is a class. -/
theorem IsClass.either {left right : Regex} {isLeft isRight : UInt8 → Bool}
    (leftClass : left.IsClass isLeft) (rightClass : right.IsClass isRight) :
    (left.either right).IsClass fun byte => isLeft byte || isRight byte := by
  intro text
  simp only [Matches, leftClass text, rightClass text, Bool.or_eq_true, and_or_left, exists_or]

theorem IsClass.congr {regex : Regex} {isMember other : UInt8 → Bool}
    (isClass : regex.IsClass isMember) (same : ∀ byte, isMember byte = other byte) :
    regex.IsClass other := by
  obtain rfl : isMember = other := funext same
  exact isClass

/-- The parts of a repeated class are its single bytes. -/
theorem IsClass.flatten {regex : Regex} {isMember : UInt8 → Bool}
    (isClass : regex.IsClass isMember) {parts : List (List UInt8)}
    (partsMatch : ∀ part ∈ parts, regex.Matches part) :
    parts.flatten.length = parts.length ∧ ∀ byte ∈ parts.flatten, isMember byte = true := by
  induction parts with
  | nil => simp
  | cons part parts inductionHypothesis =>
      obtain ⟨sameLength, members⟩ := inductionHypothesis fun other member =>
        partsMatch other (List.mem_cons_of_mem _ member)
      obtain ⟨byte, rfl, isMember⟩ := (isClass part).1 (partsMatch part List.mem_cons_self)
      simp only [List.flatten_cons, List.singleton_append, List.length_cons, sameLength,
        List.forall_mem_cons]
      exact ⟨trivial, isMember, members⟩

/-- A text of a class is cut into single bytes. -/
theorem IsClass.singletons {regex : Regex} {isMember : UInt8 → Bool}
    (isClass : regex.IsClass isMember) {text : List UInt8}
    (members : ∀ byte ∈ text, isMember byte = true) :
    ∀ part ∈ text.map fun byte => [byte], regex.Matches part := by
  simp only [List.mem_map, forall_exists_index, and_imp, forall_apply_eq_imp_iff₂]
  exact fun byte member => (isClass _).2 ⟨byte, rfl, members byte member⟩

/-- A repeated class matches the texts of its bytes. -/
theorem IsClass.anyNumber {regex : Regex} {isMember : UInt8 → Bool}
    (isClass : regex.IsClass isMember) (text : List UInt8) :
    regex.anyNumber.Matches text ↔ ∀ byte ∈ text, isMember byte = true := by
  constructor
  · rintro ⟨parts, rfl, partsMatch⟩
    exact (isClass.flatten partsMatch).2
  · intro members
    refine ⟨text.map fun byte => [byte], ?_, isClass.singletons members⟩
    rw [← List.flatMap_def, List.flatMap_singleton']

/-- And at least one of it those that are not empty. -/
theorem IsClass.atLeastOne {regex : Regex} {isMember : UInt8 → Bool}
    (isClass : regex.IsClass isMember) (text : List UInt8) :
    regex.atLeastOne.Matches text ↔ text ≠ [] ∧ ∀ byte ∈ text, isMember byte = true := by
  constructor
  · rintro ⟨parts, someParts, rfl, partsMatch⟩
    obtain ⟨sameLength, members⟩ := isClass.flatten partsMatch
    refine ⟨?_, members⟩
    rwa [ne_eq, ← List.length_eq_zero_iff, sameLength, List.length_eq_zero_iff]
  · rintro ⟨someBytes, members⟩
    refine ⟨text.map fun byte => [byte], by simpa using someBytes, ?_,
      isClass.singletons members⟩
    rw [← List.flatMap_def, List.flatMap_singleton']

/-- One byte of a class in front of something else. -/
theorem IsClass.sequence {first : Regex} {isMember : UInt8 → Bool} (isClass : first.IsClass isMember)
    (second : Regex) (text : List UInt8) :
    (first.sequence second).Matches text ↔
      ∃ byte rest, text = byte :: rest ∧ isMember byte = true ∧ second.Matches rest := by
  constructor
  · rintro ⟨front, back, rfl, frontMatches, backMatches⟩
    obtain ⟨byte, rfl, member⟩ := (isClass front).1 frontMatches
    exact ⟨byte, back, rfl, member, backMatches⟩
  · rintro ⟨byte, rest, rfl, member, restMatches⟩
    exact ⟨[byte], rest, rfl, (isClass _).2 ⟨byte, rfl, member⟩, restMatches⟩

theorem le_and_le (byte other : UInt8) :
    (decide (byte ≤ other) && decide (other ≤ byte)) = (other == byte) := by
  rw [Bool.eq_iff_iff, Bool.and_eq_true, decide_eq_true_eq, decide_eq_true_eq, beq_iff_eq]
  exact ⟨fun ⟨least, most⟩ => UInt8.le_antisymm most least, fun same => by simp [same]⟩

/-- A single given byte. -/
def byte (byte : UInt8) : Regex :=
  oneOf (.one byte)

theorem isClass_byte (byte : UInt8) : (Regex.byte byte).IsClass (· == byte) :=
  (isClass_oneOf _).congr fun other => (ByteClass.contains_one _ _).trans (le_and_le byte other)

/-- All bytes but the given ones. -/
def except (excluded : List UInt8) : Regex :=
  oneOf ⟨excluded.map fun byte => (byte, byte), true⟩

/-- All bytes but some are a class. -/
theorem isClass_except (excluded : List UInt8) :
    (except excluded).IsClass fun byte => excluded.all (byte != ·) := by
  refine (isClass_oneOf _).congr fun byte => ?_
  simp only [ByteClass.contains, List.any_map, Function.comp_def, le_and_le, Bool.true_bne,
    List.not_any_eq_all_not]
  rfl

/-- A given byte in front of something else. -/
theorem byte_sequence (first : UInt8) (second : Regex) (text : List UInt8) :
    ((byte first).sequence second).Matches text ↔
      ∃ rest, text = first :: rest ∧ second.Matches rest := by
  rw [(isClass_byte first).sequence]
  simp only [beq_iff_eq]
  constructor
  · rintro ⟨_, rest, rfl, rfl, restMatches⟩
    exact ⟨rest, rfl, restMatches⟩
  · rintro ⟨rest, rfl, restMatches⟩
    exact ⟨first, rest, rfl, rfl, restMatches⟩

/-- The given bytes in their order. -/
def bytes : List UInt8 → Regex
  | [] => empty
  | [last] => byte last
  | first :: rest => (byte first).sequence (bytes rest)

/-- A fixed sequence of bytes matches itself only. -/
theorem matches_bytes (wanted text : List UInt8) : (bytes wanted).Matches text ↔ text = wanted := by
  induction wanted generalizing text with
  | nil => exact Iff.rfl
  | cons first rest inductionHypothesis =>
      cases rest with
      | nil => simp [bytes, isClass_byte first text]
      | cons second rest =>
          rw [bytes, byte_sequence]
          · simp [inductionHypothesis]
          · simp

end Regex

namespace Pattern

/-- A pattern computes the size of the longest prefix of a text that belongs to a language. -/
structure Finds (pattern : Pattern) (language : List UInt8 → Prop) : Prop where
  found : ∀ {input size}, pattern.longest? input = some size →
    size ≤ input.length ∧ language (input.take size)
  longest : ∀ {input lexeme}, lexeme <+: input → language lexeme →
    ∃ size, pattern.longest? input = some size ∧ lexeme.length ≤ size

namespace Finds

variable {pattern : Pattern} {language other : List UInt8 → Prop}

/-- A pattern finds a language whatever way it is described in. -/
theorem congr (finds : pattern.Finds language) (same : ∀ text, other text ↔ language text) :
    pattern.Finds other where
  found := fun found => (finds.found found).imp_right (same _).2
  longest := fun isPrefix belongs => finds.longest isPrefix ((same _).1 belongs)

/-- Where nothing is found, no prefix belongs to the language. -/
theorem not_of_none (finds : pattern.Finds language) {input lexeme : List UInt8}
    (nothing : pattern.longest? input = none) (isPrefix : lexeme <+: input) : ¬language lexeme := by
  intro belongs
  obtain ⟨size, found, _⟩ := finds.longest isPrefix belongs
  cases nothing.symm.trans found

/-- A search that looks for the end of a text and does not look behind it. -/
theorem search
    (whole : ∀ text, language text ↔ pattern.longest? text = some text.length)
    (stable : ∀ {text size}, pattern.longest? text = some size →
      size ≤ text.length ∧ ∀ more, pattern.longest? (text.take size ++ more) = some size) :
    pattern.Finds language where
  found := by
    intro input size found
    obtain ⟨inside, same⟩ := stable found
    have length : (input.take size).length = size := by
      rw [List.length_take, Nat.min_eq_left inside]
    have alone := same []
    rw [List.append_nil] at alone
    exact ⟨inside, (whole _).2 (by rw [alone, length])⟩
  longest := by
    rintro _ lexeme ⟨rest, rfl⟩ belongs
    have same := (stable ((whole lexeme).1 belongs)).2 rest
    rw [List.take_length] at same
    exact ⟨lexeme.length, same, Nat.le_refl _⟩

end Finds

/-- The bytes of a class at the front of a text are at most those that are taken. -/
theorem length_le_takeWhile {isMember : UInt8 → Bool} {run input : List UInt8}
    (isPrefix : run <+: input) (members : ∀ byte ∈ run, isMember byte = true) :
    run.length ≤ (input.takeWhile isMember).length := by
  obtain ⟨rest, rfl⟩ := isPrefix
  rw [List.takeWhile_append_of_pos members, List.length_append]
  omega

/-- The run at the front is what the pattern takes. -/
theorem take_length_takeWhile (isMember : UInt8 → Bool) (input : List UInt8) :
    input.take (input.takeWhile isMember).length = input.takeWhile isMember :=
  List.prefix_iff_eq_take.1 (List.takeWhile_prefix _) |>.symm

/-- A fixed sequence of bytes finds itself. -/
theorem finds_exactly (bytes : List UInt8) :
    (exactly bytes).Finds (Regex.bytes bytes).Matches := by
  refine Finds.congr ⟨?_, ?_⟩ (Regex.matches_bytes bytes)
  · intro input size found
    simp only [exactly, List.isPrefixOf_iff_prefix] at found
    split at found
    · rename_i isPrefix
      cases found
      exact ⟨isPrefix.length_le, (List.prefix_iff_eq_take.1 isPrefix).symm⟩
    · cases found
  · rintro input lexeme isPrefix rfl
    exact ⟨lexeme.length, by simp [exactly, isPrefix], Nat.le_refl _⟩

/-- One byte of a class, then bytes of another class. -/
theorem finds_run {first rest : Regex} {isFirst isRest : UInt8 → Bool}
    (firstClass : first.IsClass isFirst) (restClass : rest.IsClass isRest) :
    (run isFirst isRest).Finds (first.sequence rest.anyNumber).Matches where
  found := by
    intro input size found
    cases input with
    | nil => cases found
    | cons byte input =>
        simp only [run] at found
        split at found
        · rename_i isFirst
          cases found
          have inside := (List.takeWhile_prefix (l := input) isRest).length_le
          refine ⟨by simpa using inside, (firstClass.sequence _ _).2 ⟨byte, _, rfl, isFirst, ?_⟩⟩
          rw [restClass.anyNumber, take_length_takeWhile]
          exact fun _ member => List.mem_takeWhile_imp member
        · cases found
  longest := by
    intro input lexeme isPrefix belongs
    obtain ⟨byte, bytes, rfl, isFirst, bytesMatch⟩ := (firstClass.sequence _ _).1 belongs
    cases input with
    | nil => simp at isPrefix
    | cons other input =>
        obtain ⟨rfl, bytesPrefix⟩ := List.cons_prefix_cons.1 isPrefix
        refine ⟨(input.takeWhile isRest).length + 1, by simp [run, isFirst], ?_⟩
        exact Nat.succ_le_succ
          (length_le_takeWhile bytesPrefix ((restClass.anyNumber _).1 bytesMatch))

/-- At least one byte of a class. -/
theorem finds_run_self {regex : Regex} {isMember : UInt8 → Bool}
    (isClass : regex.IsClass isMember) :
    (run isMember isMember).Finds regex.atLeastOne.Matches := by
  refine (finds_run isClass isClass).congr fun text => ?_
  rw [isClass.atLeastOne, isClass.sequence]
  simp only [isClass.anyNumber]
  constructor
  · rintro ⟨someBytes, members⟩
    obtain ⟨byte, rest, rfl⟩ := List.exists_cons_of_ne_nil someBytes
    rw [List.forall_mem_cons] at members
    exact ⟨byte, rest, rfl, members⟩
  · rintro ⟨byte, rest, rfl, isMember, members⟩
    exact ⟨List.cons_ne_nil _ _, List.forall_mem_cons.2 ⟨isMember, members⟩⟩

/-- Two opening bytes, then no line break. -/
theorem finds_lineFrom (open₁ open₂ : UInt8) {other : Regex}
    (otherClass : other.IsClass (· != 10)) :
    (lineFrom open₁ open₂ false).Finds
      ((Regex.byte open₁).sequence ((Regex.byte open₂).sequence other.anyNumber)).Matches := by
  have written (text : List UInt8) :
      ((Regex.byte open₁).sequence ((Regex.byte open₂).sequence other.anyNumber)).Matches text ↔
        ∃ line, text = open₁ :: open₂ :: line ∧ ∀ byte ∈ line, (byte != 10) = true := by
    simp only [Regex.byte_sequence, otherClass.anyNumber]
    constructor
    · rintro ⟨_, rfl, line, rfl, inLine⟩
      exact ⟨line, rfl, inLine⟩
    · rintro ⟨line, rfl, inLine⟩
      exact ⟨_, rfl, line, rfl, inLine⟩
  refine Finds.congr ⟨?_, ?_⟩ written
  · intro input size found
    match input with
    | [] => cases found
    | [_] => cases found
    | a :: b :: input =>
        simp only [lineFrom, Bool.false_eq_true, false_and, if_false, Nat.add_zero] at found
        split at found
        · rename_i opened
          obtain ⟨rfl, rfl⟩ := opened
          cases found
          have inside := (List.takeWhile_prefix (l := input) (· != 10)).length_le
          refine ⟨by simpa using inside, _, rfl, ?_⟩
          rw [take_length_takeWhile]
          intro byte member
          exact List.mem_takeWhile_imp (p := (· != 10)) member
        · cases found
  · rintro _ _ ⟨rest, rfl⟩ ⟨line, rfl, inLine⟩
    have inside := length_le_takeWhile (List.prefix_append line rest) inLine
    exact ⟨((line ++ rest).takeWhile (· != 10)).length + 2, by simp [lineFrom],
      by simpa using inside⟩

/-! ## Closed comments -/

section

variable {close₁ close₂ : UInt8} {text : List UInt8}

/-- A closing sign has two bytes. -/
theorem two_le_of_through {size : Nat} (found : through close₁ close₂ text = some size) :
    2 ≤ size := by
  fun_induction through close₁ close₂ text generalizing size with
  | case1 a b input closes =>
      cases found
      exact Nat.le_refl 2
  | case2 a b input open_ inductionHypothesis =>
      obtain ⟨inner, foundInner, rfl⟩ := Option.map_eq_some_iff.1 found
      exact Nat.le_succ_of_le (inductionHypothesis foundInner)
  | case3 => cases found

/-- The search for the closing bytes does not look behind them. -/
theorem through_stable {size : Nat} (found : through close₁ close₂ text = some size) :
    size ≤ text.length ∧
      ∀ more, through close₁ close₂ (text.take size ++ more) = some size := by
  fun_induction through close₁ close₂ text generalizing size with
  | case1 a b input closes =>
      cases found
      exact ⟨by simp, fun more => by simp [through, closes]⟩
  | case2 a b input open_ inductionHypothesis =>
      obtain ⟨inner, foundInner, rfl⟩ := Option.map_eq_some_iff.1 found
      obtain ⟨inside, same⟩ := inductionHypothesis foundInner
      refine ⟨Nat.succ_le_succ inside, fun more => ?_⟩
      obtain ⟨size, rfl⟩ : ∃ size, inner = size + 1 :=
        ⟨inner - 1, by have := two_le_of_through foundInner; omega⟩
      have rest := same more
      simp only [List.take_succ_cons, List.cons_append] at rest ⊢
      simp [through, open_, rest]
  | case3 => cases found

/-- A part of a comment that does not end it: bytes that may begin the end, and then one that does
not go on with it. -/
def Continues (close₁ close₂ : UInt8) (part : List UInt8) : Prop :=
  ∃ count byte, part = List.replicate count close₁ ++ [byte] ∧ byte ≠ close₁ ∧
    (count = 0 ∨ byte ≠ close₂)

/-- Parts of a comment and then its end. -/
def Closing (close₁ close₂ : UInt8) (text : List UInt8) : Prop :=
  ∃ (parts : List (List UInt8)) (count : Nat),
    text = parts.flatten ++ (List.replicate (count + 1) close₁ ++ [close₂]) ∧
      ∀ part ∈ parts, Continues close₁ close₂ part

/-- A byte that does not begin the closing sign is passed. -/
theorem through_cons {byte : UInt8} (open_ : byte ≠ close₁ ∨ text.head? ≠ some close₂) :
    through close₁ close₂ (byte :: text) = (through close₁ close₂ text).map (· + 1) := by
  cases text with
  | nil => rfl
  | cons next rest =>
      rw [through, if_neg]
      rintro ⟨rfl, rfl⟩
      simp at open_

/-- Bytes that begin the closing sign are passed if it is not completed. -/
theorem through_continues {byte : UInt8} {count : Nat} (different : close₁ ≠ close₂)
    (notFirst : byte ≠ close₁) (notClosed : count = 0 ∨ byte ≠ close₂) :
    through close₁ close₂ (List.replicate count close₁ ++ byte :: text) =
      (through close₁ close₂ text).map (· + (count + 1)) := by
  induction count with
  | zero => exact through_cons (.inl notFirst)
  | succ count inductionHypothesis =>
      have notSecond : byte ≠ close₂ := by simpa using notClosed
      have open_ : (List.replicate count close₁ ++ byte :: text).head? ≠ some close₂ := by
        cases count with
        | zero => simpa using notSecond
        | succ count => simpa [List.replicate_succ] using different
      rw [List.replicate_succ, List.cons_append, through_cons (.inr open_),
        inductionHypothesis (.inr notSecond), Option.map_map]
      rfl

/-- The closing sign may be preceded by any number of its first byte. -/
theorem through_replicate_close (different : close₁ ≠ close₂) (count : Nat) :
    through close₁ close₂ (List.replicate (count + 1) close₁ ++ [close₂]) = some (count + 2) := by
  induction count with
  | zero => simp [through]
  | succ count inductionHypothesis =>
      have open_ : (List.replicate (count + 1) close₁ ++ [close₂]).head? ≠ some close₂ := by
        simpa [List.replicate_succ] using different
      rw [List.replicate_succ, List.cons_append, through_cons (.inr open_), inductionHypothesis]
      rfl

/-- The search ends at the last byte of a text exactly if nothing before ends the comment. -/
theorem through_eq_length_iff (different : close₁ ≠ close₂) :
    through close₁ close₂ text = some text.length ↔ Closing close₁ close₂ text := by
  constructor
  · intro found
    fun_induction through close₁ close₂ text with
    | case1 a b input closes =>
        obtain ⟨rfl, rfl⟩ := closes
        obtain rfl : input = [] := by simpa using found
        exact ⟨[], 0, rfl, by simp⟩
    | case2 a b input open_ inductionHypothesis =>
        obtain ⟨parts, count, written, continues⟩ := inductionHypothesis (by simpa using found)
        rw [written]
        by_cases other : a = close₁
        · subst other
          have notSecond : b ≠ close₂ := fun same => open_ ⟨rfl, same⟩
          cases parts with
          | nil => exact ⟨[], count + 1, rfl, by simp⟩
          | cons part parts =>
              -- The byte in front becomes a part of the first one.
              rw [List.forall_mem_cons] at continues
              obtain ⟨⟨stars, byte, rfl, notFirst, notClosed⟩, others⟩ := continues
              refine ⟨(List.replicate (stars + 1) a ++ [byte]) :: parts, count, rfl, ?_⟩
              refine List.forall_mem_cons.2 ⟨⟨stars + 1, byte, rfl, notFirst, .inr ?_⟩, others⟩
              rcases notClosed with rfl | notClosed
              · obtain ⟨rfl, -⟩ := List.cons_eq_cons.1 written
                exact notSecond
              · exact notClosed
        · refine ⟨[a] :: parts, count, rfl, List.forall_mem_cons.2 ⟨?_, continues⟩⟩
          exact ⟨0, a, rfl, other, .inl rfl⟩
    | case3 => cases found
  · rintro ⟨parts, count, rfl, continues⟩
    induction parts with
    | nil => simpa using through_replicate_close different count
    | cons part parts inductionHypothesis =>
        rw [List.forall_mem_cons] at continues
        obtain ⟨⟨stars, byte, rfl, notFirst, notClosed⟩, others⟩ := continues
        simp only [List.flatten_cons, List.append_assoc, List.cons_append, List.nil_append]
        rw [through_continues different notFirst notClosed, inductionHypothesis others]
        simp only [Option.map_some, List.length_append, List.length_replicate, List.length_cons]
        congr 1
        omega

/-- Repeated stars are a number of stars. -/
theorem matches_stars (byte : UInt8) (stars : List UInt8) :
    (Regex.byte byte).atLeastOne.Matches stars ↔
      ∃ count, stars = List.replicate (count + 1) byte := by
  rw [(Regex.isClass_byte byte).atLeastOne]
  simp only [beq_iff_eq]
  constructor
  · rintro ⟨someBytes, same⟩
    obtain ⟨count, length⟩ := Nat.exists_eq_succ_of_ne_zero (mt List.length_eq_zero_iff.1 someBytes)
    exact ⟨count, List.eq_replicate_iff.2 ⟨length, same⟩⟩
  · rintro ⟨count, rfl⟩
    exact ⟨by simp, fun _ member => List.eq_of_mem_replicate member⟩

variable {inner tail : Regex}

/-- A part of the inside is one other byte, or stars that are not closed. -/
theorem matches_part (innerClass : inner.IsClass (· != close₁))
    (tailClass : tail.IsClass fun byte => byte != close₁ && byte != close₂) (part : List UInt8) :
    (inner.either ((Regex.byte close₁).atLeastOne.sequence tail)).Matches part ↔
      Continues close₁ close₂ part := by
  constructor
  · rintro (isInner | ⟨_, _, rfl, stars, isTail⟩)
    · obtain ⟨byte, rfl, other⟩ := (innerClass _).1 isInner
      exact ⟨0, byte, rfl, by simpa using other, .inl rfl⟩
    · obtain ⟨count, rfl⟩ := (matches_stars _ _).1 stars
      obtain ⟨byte, rfl, other⟩ := (tailClass _).1 isTail
      simp only [Bool.and_eq_true, bne_iff_ne] at other
      exact ⟨count + 1, byte, rfl, other.1, .inr other.2⟩
  · rintro ⟨count, byte, rfl, notFirst, notClosed⟩
    cases count with
    | zero => exact .inl ((innerClass _).2 ⟨byte, rfl, by simpa using notFirst⟩)
    | succ count =>
        refine .inr ⟨_, [byte], rfl, (matches_stars _ _).2 ⟨count, rfl⟩, (tailClass _).2 ?_⟩
        refine ⟨byte, rfl, ?_⟩
        simpa [notFirst] using notClosed

/-- The inside and the closing sign end at the first place where the sign is complete. -/
theorem matches_closing (innerClass : inner.IsClass (· != close₁))
    (tailClass : tail.IsClass fun byte => byte != close₁ && byte != close₂) :
    ((inner.either ((Regex.byte close₁).atLeastOne.sequence tail)).anyNumber.sequence
        ((Regex.byte close₁).atLeastOne.sequence (Regex.byte close₂))).Matches text ↔
      Closing close₁ close₂ text := by
  have parts := matches_part innerClass tailClass
  constructor
  · rintro ⟨_, _, rfl, ⟨front, rfl, frontMatches⟩, ⟨_, _, rfl, stars, slash⟩⟩
    obtain ⟨count, rfl⟩ := (matches_stars _ _).1 stars
    obtain ⟨byte, rfl, same⟩ := (Regex.isClass_byte close₂ _).1 slash
    rw [beq_iff_eq] at same
    exact ⟨front, count, by rw [same], fun part member => (parts part).1 (frontMatches part member)⟩
  · rintro ⟨front, count, rfl, continues⟩
    refine ⟨_, _, rfl, ⟨front, rfl, fun part member => (parts part).2 (continues part member)⟩, ?_⟩
    refine ⟨_, _, rfl, (matches_stars _ _).2 ⟨count, rfl⟩, ?_⟩
    exact (Regex.isClass_byte close₂ _).2 ⟨close₂, rfl, by simp⟩

/-- Two opening bytes, then everything up to the first two closing ones. -/
theorem finds_enclosed (open₁ open₂ : UInt8) (different : close₁ ≠ close₂)
    (innerClass : inner.IsClass (· != close₁))
    (tailClass : tail.IsClass fun byte => byte != close₁ && byte != close₂) :
    (enclosed open₁ open₂ close₁ close₂).Finds
      ((Regex.byte open₁).sequence ((Regex.byte open₂).sequence
        ((inner.either ((Regex.byte close₁).atLeastOne.sequence tail)).anyNumber.sequence
          ((Regex.byte close₁).atLeastOne.sequence (Regex.byte close₂))))).Matches := by
  refine Finds.search (fun text => ?_) ?_
  · simp only [Regex.byte_sequence, matches_closing innerClass tailClass,
      ← through_eq_length_iff different]
    constructor
    · rintro ⟨_, rfl, body, rfl, closes⟩
      simp [enclosed, closes]
    · intro found
      match text with
      | [] => cases found
      | [_] => cases found
      | a :: b :: body =>
          simp only [enclosed] at found
          split at found
          · rename_i opened
            obtain ⟨rfl, rfl⟩ := opened
            exact ⟨_, rfl, body, rfl, by simpa using found⟩
          · cases found
  · intro text size found
    match text with
    | [] => cases found
    | [_] => cases found
    | a :: b :: body =>
        simp only [enclosed] at found
        split at found
        · rename_i opened
          obtain ⟨inner, foundInner, rfl⟩ := Option.map_eq_some_iff.1 found
          obtain ⟨inside, same⟩ := through_stable foundInner
          refine ⟨by simpa using inside, fun more => ?_⟩
          simp [enclosed, opened, same]
        · cases found

end

/-! ## Quoted texts -/

section

variable {quote escape : UInt8} {text : List UInt8} {plain any : Regex}

/-- An unescaped quote ends a text. -/
theorem throughQuote_quote (quote : UInt8) (escape? : Option UInt8) (rest : List UInt8) :
    throughQuote quote escape? (quote :: rest) = some 1 := by
  unfold throughQuote
  rw [if_pos rfl]

/-- An escaped byte is passed, whatever it is. -/
theorem throughQuote_escape {byte next : UInt8} {escape? : Option UInt8} (notQuote : byte ≠ quote)
    (isEscape : some byte = escape?) (rest : List UInt8) :
    throughQuote quote escape? (byte :: next :: rest) =
      (throughQuote quote escape? rest).map (· + 2) := by
  rw [throughQuote, if_neg notQuote, if_pos isEscape]

/-- Any other byte is passed. -/
theorem throughQuote_plain {byte : UInt8} {escape? : Option UInt8} (notQuote : byte ≠ quote)
    (notEscape : some byte ≠ escape?) (rest : List UInt8) :
    throughQuote quote escape? (byte :: rest) =
      (throughQuote quote escape? rest).map (· + 1) := by
  rw [throughQuote.eq_def]
  simp only [if_neg notQuote, if_neg notEscape]

/-- The search for the closing quote does not look behind it. -/
theorem throughQuote_stable {escape? : Option UInt8} {size : Nat}
    (found : throughQuote quote escape? text = some size) :
    size ≤ text.length ∧
      ∀ more, throughQuote quote escape? (text.take size ++ more) = some size := by
  fun_induction throughQuote quote escape? text generalizing size with
  | case1 => cases found
  | case2 input =>
      cases found
      exact ⟨by simp, fun more => throughQuote_quote _ _ _⟩
  | case3 => cases found
  | case4 byte notQuote isEscape next input inductionHypothesis =>
      obtain ⟨inner, foundInner, rfl⟩ := Option.map_eq_some_iff.1 found
      obtain ⟨inside, same⟩ := inductionHypothesis foundInner
      refine ⟨by simpa using inside, fun more => ?_⟩
      rw [List.take_succ_cons, List.take_succ_cons, List.cons_append, List.cons_append,
        throughQuote_escape notQuote isEscape, same]
      rfl
  | case5 byte input notQuote notEscape inductionHypothesis =>
      obtain ⟨inner, foundInner, rfl⟩ := Option.map_eq_some_iff.1 found
      obtain ⟨inside, same⟩ := inductionHypothesis foundInner
      refine ⟨by simpa using inside, fun more => ?_⟩
      rw [List.take_succ_cons, List.cons_append, throughQuote_plain notQuote notEscape, same]
      rfl

/-- The search ends at the last byte of a text exactly if that is the first quote which no escape
takes with it. -/
theorem throughQuote_eq_length_iff (different : quote ≠ escape)
    (plainClass : plain.IsClass fun byte => byte != quote && byte != escape)
    (anyClass : any.IsClass fun _ => true) :
    throughQuote quote (some escape) text = some text.length ↔
      ((plain.either ((Regex.byte escape).sequence any)).anyNumber.sequence
        (Regex.byte quote)).Matches text := by
  constructor
  · intro found
    fun_induction throughQuote quote (some escape) text with
    | case1 => cases found
    | case2 input =>
        obtain rfl : input = [] := by simpa using found
        refine ⟨[], [quote], rfl, ⟨[], rfl, by simp⟩, ?_⟩
        exact (Regex.isClass_byte quote _).2 ⟨quote, rfl, by simp⟩
    | case3 => cases found
    | case4 byte notQuote isEscape next input inductionHypothesis =>
        obtain ⟨_, back, rfl, ⟨parts, rfl, partsMatch⟩, closes⟩ :=
          inductionHypothesis (by simpa using found)
        refine ⟨_, back, rfl, ⟨[byte, next] :: parts, rfl, ?_⟩, closes⟩
        refine List.forall_mem_cons.2 ⟨.inr ((Regex.byte_sequence _ _ _).2 ?_), partsMatch⟩
        cases isEscape
        exact ⟨[next], rfl, (anyClass _).2 ⟨next, rfl, rfl⟩⟩
    | case5 byte input notQuote notEscape inductionHypothesis =>
        obtain ⟨_, back, rfl, ⟨parts, rfl, partsMatch⟩, closes⟩ :=
          inductionHypothesis (by simpa using found)
        refine ⟨_, back, rfl, ⟨[byte] :: parts, rfl, ?_⟩, closes⟩
        refine List.forall_mem_cons.2 ⟨.inl ((plainClass _).2 ⟨byte, rfl, ?_⟩), partsMatch⟩
        simpa [notQuote] using notEscape
  · rintro ⟨_, _, rfl, ⟨parts, rfl, partsMatch⟩, closes⟩
    obtain ⟨byte, rfl, same⟩ := (Regex.isClass_byte quote _).1 closes
    rw [beq_iff_eq] at same
    subst same
    induction parts with
    | nil => exact throughQuote_quote _ _ _
    | cons part parts inductionHypothesis =>
        rw [List.forall_mem_cons] at partsMatch
        have rest := inductionHypothesis partsMatch.2
        rcases partsMatch.1 with isPlain | isEscaped
        · obtain ⟨plainByte, rfl, other⟩ := (plainClass _).1 isPlain
          simp only [Bool.and_eq_true, bne_iff_ne] at other
          rw [List.flatten_cons, List.append_assoc, List.singleton_append,
            throughQuote_plain other.1 (by simpa using other.2), rest]
          simp
        · obtain ⟨_, rfl, isAny⟩ := (Regex.byte_sequence _ _ _).1 isEscaped
          obtain ⟨next, rfl, -⟩ := (anyClass _).1 isAny
          simp only [List.flatten_cons, List.cons_append, List.nil_append]
          rw [throughQuote_escape different.symm rfl, rest]
          simp

/-- A text between two equal quotes. -/
theorem finds_quotedText (different : quote ≠ escape)
    (plainClass : plain.IsClass fun byte => byte != quote && byte != escape)
    (anyClass : any.IsClass fun _ => true) :
    (quotedText quote (some escape)).Finds
      ((Regex.byte quote).sequence
        ((plain.either ((Regex.byte escape).sequence any)).anyNumber.sequence
          (Regex.byte quote))).Matches := by
  refine Finds.search (fun text => ?_) ?_
  · simp only [Regex.byte_sequence, ← throughQuote_eq_length_iff different plainClass anyClass]
    constructor
    · rintro ⟨body, rfl, closes⟩
      simp [quotedText, closes]
    · intro found
      cases text with
      | nil => cases found
      | cons byte body =>
          simp only [quotedText] at found
          split at found
          · rename_i opened
            exact ⟨body, by rw [opened], by simpa using found⟩
          · cases found
  · intro text size found
    cases text with
    | nil => cases found
    | cons byte body =>
        simp only [quotedText] at found
        split at found
        · rename_i opened
          obtain ⟨inner, foundInner, rfl⟩ := Option.map_eq_some_iff.1 found
          obtain ⟨inside, same⟩ := throughQuote_stable foundInner
          exact ⟨by simpa using inside, fun more => by simp [quotedText, opened, same]⟩
        · cases found

end

/-! ## Numbers -/

section

variable {point : UInt8} {isDigit : UInt8 → Bool} {digit : Regex}

/-- A point and at least one digit. -/
theorem matches_fraction (digitClass : digit.IsClass isDigit) (text : List UInt8) :
    ((Regex.byte point).sequence digit.atLeastOne).Matches text ↔
      ∃ digits, text = point :: digits ∧ digits ≠ [] ∧ ∀ byte ∈ digits, isDigit byte = true := by
  simp only [Regex.byte_sequence, digitClass.atLeastOne]

/-- A point with digits behind it is a fraction. -/
theorem take_fractionSize (digitClass : digit.IsClass isDigit) {input : List UInt8}
    (someBytes : 0 < fractionSize point isDigit input) :
    fractionSize point isDigit input ≤ input.length ∧
      ((Regex.byte point).sequence digit.atLeastOne).Matches
        (input.take (fractionSize point isDigit input)) := by
  cases input with
  | nil => simp [fractionSize] at someBytes
  | cons byte input =>
      simp only [fractionSize] at someBytes ⊢
      split at someBytes
      · rename_i isFraction
        have inside := (List.takeWhile_prefix (l := input) isDigit).length_le
        rw [if_pos isFraction, List.take_succ_cons, take_length_takeWhile]
        refine ⟨by simpa using inside,
          (matches_fraction digitClass _).2 ⟨input.takeWhile isDigit, ?_, ?_, ?_⟩⟩
        · rw [isFraction.1]
        · exact List.length_pos_iff.1 isFraction.2
        · exact fun _ member => List.mem_takeWhile_imp member
      · cases someBytes

/-- No longer prefix is one. -/
theorem length_le_fractionSize (digitClass : digit.IsClass isDigit) {input lexeme : List UInt8}
    (isPrefix : lexeme <+: input)
    (belongs : ((Regex.byte point).sequence digit.atLeastOne).Matches lexeme) :
    lexeme.length ≤ fractionSize point isDigit input := by
  obtain ⟨digits, rfl, someDigits, areDigits⟩ := (matches_fraction digitClass _).1 belongs
  obtain ⟨rest, rfl⟩ := isPrefix
  have inside := length_le_takeWhile (List.prefix_append digits rest) areDigits
  have positive := List.length_pos_iff.2 someDigits
  rw [List.cons_append, fractionSize, if_pos ⟨rfl, Nat.lt_of_lt_of_le positive inside⟩]
  exact Nat.succ_le_succ inside

/-- The pattern of fractions finds the longest one. -/
theorem finds_fraction (digitClass : digit.IsClass isDigit) :
    (fraction point isDigit).Finds ((Regex.byte point).sequence digit.atLeastOne).Matches where
  found := by
    intro input size found
    simp only [fraction] at found
    split at found
    · rename_i someBytes
      cases found
      exact take_fractionSize digitClass someBytes
    · cases found
  longest := by
    intro input lexeme isPrefix belongs
    have inside := length_le_fractionSize digitClass isPrefix belongs
    obtain ⟨digits, rfl, -⟩ := (matches_fraction digitClass _).1 belongs
    have someBytes : 0 < fractionSize point isDigit input := Nat.lt_of_lt_of_le (by simp) inside
    exact ⟨_, if_pos someBytes, inside⟩

/-- At least one digit with an optional fraction. -/
theorem finds_decimal (digitClass : digit.IsClass isDigit) (noDigit : isDigit point = false) :
    (decimal point isDigit).Finds
      (digit.atLeastOne.sequence
        ((Regex.byte point).sequence digit.atLeastOne).atMostOne).Matches where
  found := by
    intro input size found
    simp only [decimal] at found
    split at found
    · rename_i someDigits
      cases found
      rw [List.take_add, take_length_takeWhile]
      have whole := (List.takeWhile_prefix (l := input) isDigit).length_le
      have leading : digit.atLeastOne.Matches (input.takeWhile isDigit) :=
        (digitClass.atLeastOne _).2 ⟨List.length_pos_iff.1 someDigits,
          fun _ member => List.mem_takeWhile_imp member⟩
      rcases Nat.eq_zero_or_pos
          (fractionSize point isDigit (input.drop (input.takeWhile isDigit).length)) with
        none | some
      · rw [none]
        exact ⟨whole, _, _, rfl, leading, .inl (List.take_zero)⟩
      · obtain ⟨inside, fraction⟩ := take_fractionSize digitClass some
        rw [List.length_drop] at inside
        exact ⟨by omega, _, _, rfl, leading, .inr fraction⟩
    · cases found
  longest := by
    rintro _ _ ⟨rest, rfl⟩ ⟨digits, tail, rfl, digitsMatch, tailMatches⟩
    obtain ⟨someDigits, areDigits⟩ := (digitClass.atLeastOne _).1 digitsMatch
    have positive := List.length_pos_iff.2 someDigits
    rw [List.append_assoc]
    have inside := length_le_takeWhile (List.prefix_append digits (tail ++ rest)) areDigits
    refine ⟨_, if_pos (Nat.lt_of_lt_of_le positive inside), ?_⟩
    rcases tailMatches with rfl | isFraction
    · rw [List.append_nil]
      exact Nat.le_add_right_of_le inside
    · -- The point ends the digits in front of it, so the fraction begins behind them.
      have fits := length_le_fractionSize digitClass (List.prefix_append tail rest) isFraction
      obtain ⟨others, rfl, -⟩ := (matches_fraction digitClass _).1 isFraction
      have ended : (digits ++ (point :: others ++ rest)).takeWhile isDigit = digits := by
        rw [List.takeWhile_append_of_pos areDigits, List.cons_append,
          List.takeWhile_cons_of_neg (by simp [noDigit]), List.append_nil]
      rw [ended, List.drop_left, List.length_append]
      exact Nat.add_le_add_left fits _

end

end Pattern

end Lexer
end ScopeScript
