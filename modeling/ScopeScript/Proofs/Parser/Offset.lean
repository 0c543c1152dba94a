import Mathlib.Algebra.Group.Nat.Defs
import ScopeScript.Proofs.Parser.Relocation
import ScopeScript.Session

/-!
# Parsing at an offset

A text that is part of a larger one is parsed with an offset: the same tree is read as without one,
with all spans shifted, or the same diagnostic is given at the shifted place. This is a relocation
as long as no position exceeds the word size, and the spans of the tokens lie within the text.

In a session the lines are collected in one text, and each line is parsed at the offset at which it
begins there. So the spans of a line select the same bytes from the collected text as the unshifted
ones from the line itself (`offset_parse_is_shifted`).
-/

namespace ScopeScript

namespace Text

theorem length_bytes (text : String) : (bytes text).length = size text := rfl

theorem bytes_append (first second : String) :
    bytes (first ++ second) = bytes first ++ bytes second := by
  simp [bytes]

theorem size_append (first second : String) :
    size (first ++ second) = size first + size second := by
  simp [size]

/-- The bytes of a text from a position up to another one, both clamped to its end. -/
def between (text : String) (start stop : Nat) : List UInt8 :=
  ((bytes text).take stop).drop start

/-- Positions in an appended text are counted from where it begins. -/
theorem between_append (first second : String) {start : Nat} (behind : size first ≤ start)
    (stop : Nat) :
    between (first ++ second) start stop =
      between second (start - size first) (stop - size first) := by
  unfold between
  rw [bytes_append, List.take_append, List.drop_append, length_bytes]
  have before : ((bytes first).take stop).drop start = [] := by
    rw [List.drop_eq_nil_iff, List.length_take, length_bytes]
    omega
  rw [before, List.nil_append, List.length_take, length_bytes]
  rcases Nat.le_total (size first) stop with inside | outside
  · rw [Nat.min_eq_right inside]
  · simp [Nat.sub_eq_zero_of_le outside]

end Text

namespace Span

/-- A span lies within a text of the given size. -/
def Within (size : Nat) (span : Span) : Prop :=
  span.start.toNat ≤ size ∧ span.stop.toNat ≤ size

end Span

namespace Relocation

/-- The shift by an offset, for spans within a text that can be shifted as a whole. -/
def shift (offset : UInt64) (size : Nat) (fits : offset.toNat + size < 2 ^ 64) : Relocation where
  move span := span.shift offset
  Covers := Span.Within size
  covers_extend := by
    rintro span other ⟨start, stop⟩ ⟨otherStart, otherStop⟩
    unfold Span.extend
    constructor
    · dsimp only
      split <;> assumption
    · dsimp only
      split <;> assumption
  move_extend := by
    rintro span other ⟨start, stop⟩ ⟨otherStart, otherStop⟩
    have shifted : ∀ position : UInt64, position.toNat ≤ size →
        (position + offset).toNat = position.toNat + offset.toNat := by
      intro position within
      rw [UInt64.toNat_add, Nat.mod_eq_of_lt (by omega)]
    simp only [Span.extend, Span.shift, gt_iff_lt, UInt64.lt_iff_toNat_lt, shifted _ start,
      shifted _ stop, shifted _ otherStart, shifted _ otherStop, Nat.add_lt_add_iff_right]
    congr 1 <;> split <;> rfl

end Relocation

namespace Token

/-- A span inside the text stays within its bound. -/
theorem within_spanAt {offset size bound : Nat} (inside : offset + size ≤ bound) :
    (spanAt offset size).Within bound := by
  have small : ∀ position : Nat, position.toUInt64.toNat ≤ position := by
    intro position
    simp [Nat.mod_le]
  exact ⟨Nat.le_trans (small offset) (by omega), Nat.le_trans (small (offset + size)) inside⟩

/-- Tokens stand inside the text. -/
theorem located_within (pieces : List (Lexer.Piece TokenKind)) (offset : Nat) :
    ∀ token ∈ located offset pieces,
      token.span.Within (offset + (pieces.flatMap Lexer.Piece.bytes).length) := by
  induction pieces generalizing offset with
  | nil => simp [located]
  | cons piece pieces inductionHypothesis =>
      have rest := inductionHypothesis (offset + piece.bytes.length)
      rw [List.flatMap_cons, List.length_append, ← Nat.add_assoc]
      cases piece with
      | token kind bytes =>
          intro token member
          rcases List.mem_cons.1 member with rfl | member
          · exact within_spanAt (Nat.le_add_right _ _)
          · exact rest token member
      | skipped bytes => exact rest
      | unrecognised bytes => exact rest

/-- And so does what is not recognised. -/
theorem firstUnrecognised?_within (pieces : List (Lexer.Piece TokenKind)) (offset : Nat) :
    ∀ start bytes, firstUnrecognised? offset pieces = some (start, bytes) →
      start + bytes.length ≤ offset + (pieces.flatMap Lexer.Piece.bytes).length := by
  induction pieces generalizing offset with
  | nil => simp [firstUnrecognised?]
  | cons piece pieces inductionHypothesis =>
      have rest := inductionHypothesis (offset + piece.bytes.length)
      rw [List.flatMap_cons, List.length_append, ← Nat.add_assoc]
      cases piece with
      | token kind bytes => exact rest
      | skipped bytes => exact rest
      | unrecognised bytes =>
          rintro _ _ ⟨⟩
          exact Nat.le_add_right _ _

/-- The tokens of a text lie within it. -/
theorem scan_tokens_within (source : String) :
    ∀ token ∈ (scan source).tokens, token.span.Within (Text.size source) := by
  have within := located_within (Lexer.pieces rules (Text.bytes source)) 0
  rw [Lexer.flatMap_bytes_pieces, Text.length_bytes, Nat.zero_add] at within
  exact within

/-- What no rule recognises lies within the text, too. -/
theorem scan_fault?_within {source : String} {fault : Diagnostic}
    (found : (scan source).fault? = some fault) : fault.span.Within (Text.size source) := by
  obtain ⟨⟨start, bytes⟩, unrecognised, rfl⟩ := Option.map_eq_some_iff.1 found
  have within := firstUnrecognised?_within _ _ _ _ unrecognised
  rw [Lexer.flatMap_bytes_pieces, Text.length_bytes, Nat.zero_add] at within
  exact within_spanAt within

end Token

namespace Parser

/-- The same diagnostic about a shifted place. -/
def Shifted (offset : UInt64) (diagnostic shifted : Diagnostic) : Prop :=
  shifted.kind = diagnostic.kind ∧ shifted.message = diagnostic.message ∧
    shifted.span = diagnostic.span.shift offset

/-- Two attempts to read something, the second one with shifted spans. -/
inductive Attempts (offset : UInt64) (size : Nat) (Corresponds : α → α → Prop) :
    Except Diagnostic α → Except Diagnostic α → Prop
  | ok {value shifted : α} :
      Corresponds value shifted → Attempts offset size Corresponds (.ok value) (.ok shifted)
  | error {diagnostic shifted : Diagnostic} :
      diagnostic.span.Within size → Shifted offset diagnostic shifted →
      Attempts offset size Corresponds (.error diagnostic) (.error shifted)

section

variable {offset : UInt64} {size : Nat} {Corresponds : α → α → Prop} {parser : Nat → Parser α}

/-- Parsing moved tokens moves what is made of them. -/
theorem runOn_shift (fits : offset.toNat + size < 2 ^ 64)
    (commutes : ∀ fuel,
      (Relocation.shift offset size fits).Commutes Corresponds (parser fuel) (parser fuel))
    {tokens : List Token} (within : ∀ token ∈ tokens, token.span.Within size) :
    Attempts offset size Corresponds (runOn parser tokens size 0)
      (runOn parser tokens size offset) := by
  have atEnd : size.toUInt64 + 0 = size.toUInt64 := by simp
  have endWithin : (Token.spanAt size 0).Within size := Token.within_spanAt (Nat.le_refl _)
  have covered : (Relocation.shift offset size fits).CoversStream
      ⟨tokens, none, ⟨size.toUInt64, size.toUInt64⟩⟩ := ⟨within, by simp, endWithin⟩
  have moved : (Relocation.shift offset size fits).stream
      ⟨tokens, none, ⟨size.toUInt64, size.toUInt64⟩⟩ =
        ⟨tokens.map (·.shift offset), none,
          ⟨size.toUInt64 + offset, size.toUInt64 + offset⟩⟩ := rfl
  have ran := commutes (tokens.length + 1) _ covered
  rw [moved] at ran
  unfold runOn
  rw [Token.map_shift_zero, atEnd]
  cases read : parser (tokens.length + 1) ⟨tokens, none, ⟨size.toUInt64, size.toUInt64⟩⟩ with
  | ok result =>
      rw [read] at ran
      obtain ⟨_, shifted, corresponds, readShifted⟩ := ran
      simp only [read, readShifted]
      exact .ok corresponds
  | error fault =>
      rw [read] at ran
      simp only [read, ran.2]
      exact .error ran.1 ⟨rfl, rfl, rfl⟩

end

/-- Parsing with an offset moves the tree, or the fault. -/
theorem parseWith_shift {source : String} {offset : UInt64}
    (fits : offset.toNat + Text.size source < 2 ^ 64) {Corresponds : α → α → Prop}
    {parser : Nat → Parser α}
    (commutes : ∀ fuel, (Relocation.shift offset (Text.size source) fits).Commutes Corresponds
      (parser fuel) (parser fuel)) :
    Attempts offset (Text.size source) Corresponds (parseWith parser source 0)
      (parseWith parser source offset) := by
  unfold parseWith
  cases found : (Token.scan source).fault? with
  | none =>
      simp only [found]
      exact runOn_shift fits commutes (Token.scan_tokens_within source)
  | some fault =>
      simp only [found, Span.shift_zero]
      exact .error (Token.scan_fault?_within found) ⟨rfl, rfl, rfl⟩

/-- Only path and source are attached to a diagnostic. -/
theorem attach_same (path source : String) (offset : UInt64) (diagnostic : Diagnostic) :
    (attach path source offset diagnostic).kind = diagnostic.kind ∧
      (attach path source offset diagnostic).message = diagnostic.message ∧
      (attach path source offset diagnostic).span = diagnostic.span := by
  unfold attach Diagnostic.withSource
  split
  · split <;> exact ⟨rfl, rfl, rfl⟩
  · exact ⟨rfl, rfl, rfl⟩

/-- Attaching a source to a fault does not change its place. -/
theorem Attempts.attach {offset : UInt64} {size : Nat} {Corresponds : α → α → Prop}
    {first second : Except Diagnostic α} (attempts : Attempts offset size Corresponds first second)
    (path source : String) :
    Attempts offset size Corresponds (first.mapError (Parser.attach path source 0))
      (second.mapError (Parser.attach path source offset)) := by
  cases attempts with
  | ok corresponds => exact .ok corresponds
  | @error diagnostic shifted within same =>
      obtain ⟨kind, message, span⟩ := attach_same path source 0 diagnostic
      obtain ⟨kindShifted, messageShifted, spanShifted⟩ := attach_same path source offset shifted
      refine .error (span ▸ within) ⟨?_, ?_, ?_⟩
      · rw [kindShifted, kind, same.1]
      · rw [messageShifted, message, same.2.1]
      · rw [spanShifted, span, same.2.2]

end Parser

/-- The two attempts to parse a program without an offset and with one. -/
theorem Program.parseAt_shift (path : String) {source : String} {offset : UInt64}
    (fits : offset.toNat + Text.size source < 2 ^ 64) :
    Parser.Attempts offset (Text.size source)
      (Relocation.shift offset (Text.size source) fits).OfProgram
      (Program.parse path source) (Program.parseAt path source offset) :=
  (Parser.parseWith_shift fits fun _ => .program _).attach path source

/-! ## Lines of a session -/

/-- A span selects from a collected text what the unshifted span selects from a line that begins at
the offset. -/
def Span.Quotes (offset : Nat) (line collected : String) (span : Span) : Prop :=
  offset ≤ span.start.toNat ∧
    Text.between collected span.start.toNat span.stop.toNat =
      Text.between line (span.start.toNat - offset) (span.stop.toNat - offset)

/-- Spans within a line are shifted to where the line stands in the collected text. -/
theorem Span.Within.quotes {earlier line : String} {span : Span}
    (within : span.Within (Text.size line))
    (fits : Text.size earlier + Text.size line < 2 ^ 64) :
    (span.shift (Text.size earlier).toUInt64).Quotes (Text.size earlier) line
      (earlier ++ line) := by
  have offset : (Text.size earlier).toUInt64.toNat = Text.size earlier := by
    simp
    omega
  have start : (span.shift (Text.size earlier).toUInt64).start.toNat =
      span.start.toNat + Text.size earlier := by
    rw [Span.shift, UInt64.toNat_add, offset, Nat.mod_eq_of_lt (by have := within.1; omega)]
  have behind : Text.size earlier ≤ (span.shift (Text.size earlier).toUInt64).start.toNat := by
    omega
  exact ⟨behind, Text.between_append earlier line behind _⟩

namespace Interpreter

/-- The text before an appended one, whose size is the offset. -/
theorem exists_appendSource (interpreter : Interpreter) (text : String) :
    ∃ earlier, (interpreter.appendSource text).1 = Text.size earlier ∧
      (interpreter.appendSource text).2.source.source = earlier ++ text := by
  unfold appendSource
  cases files : interpreter.machine.files with
  | nil => exact ⟨"", by simp [source]⟩
  | cons file rest =>
      refine ⟨(rest.getLast?.getD file).source, ?_⟩
      simp [List.getLast?_cons, source]

end Interpreter

namespace Session

/-- The text that a line adds to its session. -/
def addition (line : String) : String := complete line ++ "\n"

/-- Where a line begins in the text of its session. -/
def offset (interpreter : Interpreter) (line : String) : Nat :=
  (interpreter.appendSource (addition line)).1

/-- The interpreter that a line is executed by. -/
def appended (interpreter : Interpreter) (line : String) : Interpreter :=
  (interpreter.appendSource (addition line)).2

/-- The text of a session, up to and including a line. -/
def collected (interpreter : Interpreter) (line : String) : String :=
  (appended interpreter line).source.source

/-- A span selects the same bytes from the text of the session as from the line. -/
def Quotes (interpreter : Interpreter) (line : String) (span : Span) : Prop :=
  span.Quotes (offset interpreter line) (addition line) (collected interpreter line)

/-- A line that parses is executed with its spans in the collected source. -/
theorem evaluate_of_ok {interpreter : Interpreter} {line : String} {program : Program}
    (parsed : Program.parseAt path (addition line) (offset interpreter line).toUInt64 =
      .ok program) :
    evaluate interpreter line = (appended interpreter line).eval program := by
  unfold addition offset addition at parsed
  simp only [evaluate, parsed]
  rfl

/-- A line that is refused is reported against the collected source. -/
theorem evaluate_of_error {interpreter : Interpreter} {line : String} {diagnostic : Diagnostic}
    (refused : Program.parseAt path (addition line) (offset interpreter line).toUInt64 =
      .error diagnostic) :
    ∃ shown, evaluate interpreter line = (.failed shown, appended interpreter line) ∧
      shown.span = diagnostic.span := by
  unfold addition offset addition at refused
  simp only [evaluate, refused]
  refine ⟨_, rfl, ?_⟩
  unfold Diagnostic.withSource
  split <;> rfl

/-- What has been collected before a line. -/
theorem exists_earlier (interpreter : Interpreter) (line : String) :
    ∃ earlier, offset interpreter line = Text.size earlier ∧
      collected interpreter line = earlier ++ addition line :=
  interpreter.exists_appendSource (addition line)

/-- The offset of a line allows its text to be shifted as a whole. -/
theorem offset_add_size_lt {interpreter : Interpreter} {line : String}
    (fits : Text.size (collected interpreter line) < 2 ^ 64) :
    (offset interpreter line).toUInt64.toNat + Text.size (addition line) < 2 ^ 64 := by
  obtain ⟨earlier, begins, joined⟩ := exists_earlier interpreter line
  rw [joined, Text.size_append] at fits
  rw [begins]
  exact Nat.lt_of_le_of_lt (Nat.add_le_add_right (Nat.mod_le _ _) _) fits

/-- Spans within a line are shifted to where the line stands in the text of the session. -/
theorem quotes_of_within {interpreter : Interpreter} {line : String} {span : Span}
    (fits : Text.size (collected interpreter line) < 2 ^ 64)
    (within : span.Within (Text.size (addition line))) :
    Quotes interpreter line (span.shift (offset interpreter line).toUInt64) := by
  obtain ⟨earlier, begins, joined⟩ := exists_earlier interpreter line
  rw [joined, Text.size_append] at fits
  rw [Quotes, joined, begins]
  exact within.quotes fits

end Session

/-- Parsing with an offset is parsing, shifted. As long as the text can be shifted as a whole, the
same program is read with all spans shifted, or the same diagnostic is given with a shifted span.
So in a session a line that is executed, and one that is refused, has only spans that select the
same bytes from the text of the session as the unshifted ones from the line. -/
theorem offset_parse_is_shifted :
    (∀ (path source : String) (offset : UInt64), offset.toNat + Text.size source < 2 ^ 64 →
      (∀ program, Program.parse path source = .ok program →
        Program.parseAt path source offset = .ok (program.mapSpans (·.shift offset))) ∧
      ∀ diagnostic, Program.parse path source = .error diagnostic →
        ∃ shifted, Program.parseAt path source offset = .error shifted ∧
          shifted.kind = diagnostic.kind ∧ shifted.message = diagnostic.message ∧
          shifted.span = diagnostic.span.shift offset) ∧
      ∀ (interpreter : Interpreter) (line : String),
        Text.size (Session.collected interpreter line) < 2 ^ 64 →
        (∀ program, Program.parseAt Session.path (Session.addition line)
            (Session.offset interpreter line).toUInt64 = .ok program →
          Session.evaluate interpreter line =
              (Session.appended interpreter line).eval program ∧
            program.EverySpan (Session.Quotes interpreter line)) ∧
        ∀ refused, Program.parseAt Session.path (Session.addition line)
            (Session.offset interpreter line).toUInt64 = .error refused →
          ∃ diagnostic, Session.evaluate interpreter line =
              (.failed diagnostic, Session.appended interpreter line) ∧
            Session.Quotes interpreter line diagnostic.span := by
  constructor
  · intro path source offset fits
    have attempts := Program.parseAt_shift path fits
    constructor
    · intro program parsed
      rw [parsed] at attempts
      generalize Program.parseAt path source offset = second at attempts ⊢
      cases attempts with
      | ok corresponds => exact congrArg Except.ok corresponds.1
    · intro diagnostic refused
      rw [refused] at attempts
      generalize Program.parseAt path source offset = second at attempts ⊢
      cases attempts with
      | error within shifted => exact ⟨_, rfl, shifted⟩
  · intro interpreter line fits
    have attempts := Program.parseAt_shift Session.path (Session.offset_add_size_lt fits)
    constructor
    · intro program parsed
      refine ⟨Session.evaluate_of_ok parsed, ?_⟩
      rw [parsed] at attempts
      generalize Program.parse Session.path (Session.addition line) = first at attempts
      cases attempts with
      | ok corresponds =>
          obtain ⟨rfl, within⟩ := corresponds
          exact within.mapSpans fun span inside => Session.quotes_of_within fits inside
    · intro refused found
      obtain ⟨diagnostic, shown, span⟩ := Session.evaluate_of_error found
      refine ⟨diagnostic, shown, ?_⟩
      rw [found] at attempts
      generalize Program.parse Session.path (Session.addition line) = first at attempts
      cases attempts with
      | error within shifted =>
          rw [span, shifted.2.2]
          exact Session.quotes_of_within fits within

/-- A session in which a line has been entered before. -/
def Session.underWay : Interpreter :=
  ((Session.start ⟨100, false, fun _ => .error .missing⟩).appendSource "let x = 1;\n").2

/-- A program is read at an offset, and the second line of a session is refused for a span that
selects from the whole session what the unshifted one selects from the line. -/
theorem refused_line_is_quoted :
    (∃ program, Program.parse "a" "x.y;" = .ok program ∧
      Program.parseAt "a" "x.y;" 40 = .ok (program.mapSpans (·.shift 40))) ∧
      ∃ diagnostic,
        Session.evaluate Session.underWay "let = 2" =
          (.failed diagnostic, Session.appended Session.underWay "let = 2") ∧
        Session.Quotes Session.underWay "let = 2" diagnostic.span := by
  obtain ⟨parses, lines⟩ := offset_parse_is_shifted
  constructor
  · cases parsed : Program.parse "a" "x.y;" with
    | error diagnostic =>
        have accepted : (Program.parse "a" "x.y;").isOk = true := by decide +kernel
        rw [parsed] at accepted
        cases accepted
    | ok program => exact ⟨program, rfl, (parses "a" "x.y;" 40 (by decide +kernel)).1 _ parsed⟩
  · cases parsed : Program.parseAt Session.path (Session.addition "let = 2")
        (Session.offset Session.underWay "let = 2").toUInt64 with
    | ok program =>
        have refused : (Program.parseAt Session.path (Session.addition "let = 2")
          (Session.offset Session.underWay "let = 2").toUInt64).isOk = false := by decide +kernel
        rw [parsed] at refused
        cases refused
    | error diagnostic => exact (lines _ _ (by decide +kernel)).2 _ parsed

end ScopeScript
