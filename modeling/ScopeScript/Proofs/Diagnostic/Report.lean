import ScopeScript.Proofs.Diagnostic.Position
import ScopeScript.Proofs.Parser.Offset
import ScopeScript.Proofs.Text.Escaping
import ScopeScript.Proofs.Text.Order

/-!
# Reports

A report shows the line of the source in which the span begins, and below it carets. The line is cut
out of the source at line breaks and blanks, where no character is torn apart
(`bytes_ofBytes_excerpt`), so the report shows its bytes as they are. The carets stand below the
bytes of the span that are shown (`carets_are_aligned`).
-/

namespace ScopeScript

/-! ## Cutting a text -/

namespace Text

/-- What stands in front of a byte of the basic alphabet and what stands behind it are texts. -/
theorem exists_texts_of_append_cons {front rest : List UInt8} {byte : UInt8} (basic : byte < 128) :
    ∀ {chars : List Char}, chars.flatMap String.utf8EncodeChar = front ++ byte :: rest →
      (∃ text, bytes text = front) ∧ ∃ text, bytes text = rest := by
  intro chars split
  induction chars generalizing front with
  | nil => simp at split
  | cons c chars inductionHypothesis =>
      rw [List.flatMap_cons] at split
      rcases List.append_eq_append_iff.1 split with ⟨more, inFront, behind⟩ | ⟨more, inside, behind⟩
      · obtain ⟨⟨text, isFront⟩, isRest⟩ := inductionHypothesis behind
        refine ⟨⟨String.singleton c ++ text, ?_⟩, isRest⟩
        rw [bytes_append, isFront, inFront, bytes_eq_flatMap, String.toList_singleton,
          List.flatMap_singleton]
      · cases more with
        | nil =>
            -- The byte begins the next character.
            rw [List.append_nil] at inside
            rw [List.nil_append] at behind
            obtain ⟨-, isRest⟩ := inductionHypothesis (behind.symm.trans (List.nil_append _).symm)
            refine ⟨⟨String.singleton c, ?_⟩, isRest⟩
            rw [bytes_eq_flatMap, String.toList_singleton, List.flatMap_singleton, inside]
        | cons first others =>
            obtain ⟨rfl, rfl⟩ := List.cons_eq_cons.1 behind
            have member : byte ∈ String.utf8EncodeChar c := by simp [inside]
            have single := utf8EncodeChar_of_mem member basic
            have length := congrArg List.length (inside.symm.trans single)
            simp only [List.length_append, List.length_cons, List.length_nil] at length
            obtain rfl : front = [] := List.length_eq_zero_iff.1 (by omega)
            obtain rfl : others = [] := List.length_eq_zero_iff.1 (by omega)
            refine ⟨⟨"", rfl⟩, String.ofList chars, ?_⟩
            rw [bytes_eq_flatMap, String.toList_ofList]
            rfl

/-- What stands between two places, each at the end or next to a byte of the basic alphabet, is a
text. -/
theorem exists_text_between {text : String} {front middle rest : List UInt8}
    (split : bytes text = front ++ (middle ++ rest))
    (left : front = [] ∨ ∃ earlier byte, byte < 128 ∧ front = earlier ++ [byte])
    (right : rest = [] ∨ ∃ byte later, byte < 128 ∧ rest = byte :: later) :
    ∃ inner, bytes inner = middle := by
  obtain ⟨behind, isBehind⟩ : ∃ behind, bytes behind = middle ++ rest := by
    rcases left with rfl | ⟨earlier, byte, basic, rfl⟩
    · exact ⟨text, split⟩
    · rw [bytes_eq_flatMap, List.append_assoc, List.singleton_append] at split
      exact (exists_texts_of_append_cons basic split).2
  rcases right with rfl | ⟨byte, later, basic, rfl⟩
  · exact ⟨behind, isBehind.trans (List.append_nil _)⟩
  · rw [bytes_eq_flatMap] at isBehind
    exact (exists_texts_of_append_cons basic isBehind).1

end Text

namespace Diagnostic

open Position (lines lineStart lineFront lineBreak behind)

variable (diagnostic : Diagnostic)

/-! ## Offsets and positions -/

/-- The clamped offsets are in order and inside the source. -/
theorem offsets_inside : diagnostic.startOffset ≤ diagnostic.stopOffset ∧
    diagnostic.stopOffset ≤ (Text.bytes diagnostic.source).length :=
  ⟨Nat.le_max_left _ _, Nat.max_le.2 ⟨Nat.min_le_right _ _, Nat.min_le_right _ _⟩⟩

/-- The position of an offset leads back to it. -/
theorem offset_position {offset : Nat} (inside : offset ≤ (Text.bytes diagnostic.source).length) :
    Position.offset (Text.bytes diagnostic.source)
      (behind ((Text.bytes diagnostic.source).take offset)) = offset := by
  have found := Position.offset_behind ((Text.bytes diagnostic.source).take offset)
    ((Text.bytes diagnostic.source).drop offset)
  rwa [List.take_append_drop, List.length_take, Nat.min_eq_left inside] at found

theorem offset_startPosition :
    Position.offset (Text.bytes diagnostic.source) diagnostic.startPosition =
      diagnostic.startOffset :=
  diagnostic.offset_position (Nat.le_trans diagnostic.offsets_inside.1 diagnostic.offsets_inside.2)

theorem offset_stopPosition :
    Position.offset (Text.bytes diagnostic.source) diagnostic.stopPosition =
      diagnostic.stopOffset :=
  diagnostic.offset_position diagnostic.offsets_inside.2

/-- The start does not come behind the stop. -/
theorem startPosition_le : diagnostic.startPosition = diagnostic.stopPosition ∨
    diagnostic.startPosition.Before diagnostic.stopPosition := by
  obtain ⟨ordered, inside⟩ := diagnostic.offsets_inside
  rcases Nat.eq_or_lt_of_le ordered with same | less
  · exact .inl (by rw [startPosition, stopPosition, same])
  · exact .inr (Position.before_behind_take less inside)

/-! ## The line that is shown -/

/-- Number of bytes in front of the line in which the span begins. -/
def shownStart : Nat :=
  lineStart (Text.bytes diagnostic.source) diagnostic.startPosition.line

/-- What is shown of the source is the line in which the span begins, without the blanks at its
end. It stands between line breaks. -/
theorem exists_shown_line :
    ∃ line, (lines (Text.bytes diagnostic.source))[diagnostic.startPosition.line - 1]? = some line ∧
      diagnostic.excerpt = line.rdropWhile isTrailingBlank ∧
      ∃ earlier later, Text.bytes diagnostic.source = earlier ++ (line ++ later) ∧
        earlier.length = diagnostic.shownStart ∧
        (earlier = [] ∨ ∃ others, earlier = others ++ [lineBreak]) ∧
        (later = [] ∨ ∃ others, later = lineBreak :: others) := by
  generalize isBefore : (Text.bytes diagnostic.source).take diagnostic.startOffset = before
  generalize isRest : (Text.bytes diagnostic.source).drop diagnostic.startOffset = rest
  have isPosition : diagnostic.startPosition = behind before := by rw [startPosition, isBefore]
  have isSource : Text.bytes diagnostic.source = before ++ rest := by
    rw [← isBefore, ← isRest, List.take_append_drop]
  have start := diagnostic.offset_startPosition
  obtain ⟨earlier, frontSplit, isEarlier⟩ := Position.exists_lineFront before
  obtain ⟨later, restSplit, isLater⟩ := Position.exists_lineRest rest
  rw [isPosition, isSource, Position.offset_behind] at start
  have frontLength := congrArg List.length frontSplit
  rw [List.length_append] at frontLength
  have isStart : earlier.length =
      diagnostic.startOffset - (diagnostic.startPosition.column - 1) := by
    rw [isPosition, Position.column_behind]
    omega
  refine ⟨lineFront before ++ rest.takeWhile (· != lineBreak), ?_, ?_, earlier, later, ?_, ?_,
    isEarlier, isLater⟩
  · rw [isPosition, isSource]
    exact Position.getElem?_lines_behind before rest
  · have members : ∀ byte ∈ lineFront before, (byte != lineBreak) = true :=
      fun _ member => List.mem_rtakeWhile_imp (p := (· != lineBreak)) member
    have dropped : (before ++ rest).drop earlier.length = lineFront before ++ rest := by
      nth_rewrite 1 [frontSplit]
      rw [List.append_assoc, List.drop_left]
    rw [excerpt, ← isStart, isSource, dropped, List.takeWhile_append_of_pos members]
    rfl
  · rw [isSource]
    nth_rewrite 1 [frontSplit, restSplit]
    simp only [List.append_assoc]
  · rw [shownStart, isStart, isPosition, isSource, Position.lineStart_behind, start]

/-- No character is torn apart where the shown line is cut out. -/
theorem bytes_ofBytes_excerpt :
    Text.bytes (Text.ofBytes diagnostic.excerpt) = diagnostic.excerpt := by
  obtain ⟨line, -, isExcerpt, earlier, later, split, -, isEarlier, isLater⟩ :=
    diagnostic.exists_shown_line
  obtain ⟨lineText, isLine⟩ := Text.exists_text_between split
    (isEarlier.imp_right fun ⟨others, same⟩ => ⟨others, lineBreak, by decide, same⟩)
    (isLater.imp_right fun ⟨others, same⟩ => ⟨lineBreak, others, by decide, same⟩)
  obtain ⟨blanks, trimmed⟩ := List.rdropWhile_prefix (p := isTrailingBlank) (l := line)
  rw [← isExcerpt] at trimmed
  have basic : blanks = [] ∨ ∃ byte more, byte < 128 ∧ blanks = byte :: more := by
    have areBlanks : ∀ byte ∈ blanks, isTrailingBlank byte = true := by
      have suffix : blanks = line.rtakeWhile isTrailingBlank := by
        have split := List.rdropWhile_append_rtakeWhile (p := isTrailingBlank) (l := line)
        rw [← isExcerpt] at split
        exact List.append_cancel_left (trimmed.trans split.symm)
      exact fun byte member => List.mem_rtakeWhile_imp (suffix ▸ member)
    cases blanks with
    | nil => exact .inl rfl
    | cons byte more =>
        refine .inr ⟨byte, more, ?_, rfl⟩
        have blank := areBlanks byte List.mem_cons_self
        simp only [isTrailingBlank, Bool.or_eq_true, beq_iff_eq] at blank
        rcases blank with (rfl | rfl) | rfl <;> decide
  obtain ⟨text, isText⟩ := Text.exists_text_between
    ((isLine.trans trimmed.symm).trans (List.nil_append _).symm) (.inl rfl) basic
  rw [← isText, Text.ofBytes_bytes]

/-! ## The lines of a report -/

/-- The first line of a report: the place of the span. -/
def header : String :=
  "--> " ++ diagnostic.path ++ ":" ++ toString diagnostic.startPosition.line ++ ":" ++
    toString diagnostic.startPosition.column ++ "-" ++ toString diagnostic.stopPosition.line ++
    ":" ++ toString diagnostic.stopPosition.column

/-- What stands in front of the source in a report: the number of the line, a bar and a blank. -/
def margin : List UInt8 :=
  Text.bytes (toString diagnostic.startPosition.line ++ " |") ++ [32]

/-- The second line of a report: a line of the source. -/
def sourceLine : List UInt8 :=
  diagnostic.margin ++ diagnostic.excerpt

/-- The third line of a report up to the last caret. -/
def caretLine : List UInt8 :=
  List.replicate (diagnostic.margin.length + (diagnostic.startPosition.column - 1)) 32 ++
    List.replicate diagnostic.caretCount (Text.byteOf '^')

/-- Number of bytes in front of the place in a line of the report that belongs to a byte of the
source. -/
def reportColumn (offset : Nat) : Nat :=
  diagnostic.margin.length + (offset - diagnostic.shownStart)

/-- The number of a line is written with digits, so it takes as many bytes as characters. -/
theorem length_bytes_number (line : Nat) :
    (Text.bytes (toString line ++ " |")).length = (toString line ++ " |").length := by
  have basic : ∀ c ∈ (toString line ++ " |").toList, c.toNat < 128 := by
    rw [String.toList_append, List.forall_mem_append]
    refine ⟨fun c member => ?_, by simp⟩
    have digit := Nat.isDigit_of_mem_toDigits (b := 10) (c := c) (n := line) (by decide) (by decide)
      (by simpa using member)
    exact Nat.lt_of_le_of_lt (Char.isDigit_iff_toNat.1 digit).2 (by decide)
  rw [Text.bytes_of_toList basic, List.length_map, String.length_toList]

/-- A report is its header, the source line and the line of carets with the headline. -/
theorem bytes_format : Text.bytes (diagnostic.format false) =
    Text.bytes diagnostic.header ++ 10 :: (diagnostic.sourceLine ++ 10 :: (diagnostic.caretLine ++
      32 :: Text.bytes diagnostic.headline)) := by
  have shown : diagnostic.format false = diagnostic.header ++ "\n" ++
      (toString diagnostic.startPosition.line ++ " |") ++ " " ++ Text.ofBytes diagnostic.excerpt ++
      "\n" ++ String.ofList
        (List.replicate ((toString diagnostic.startPosition.line ++ " |").length +
          diagnostic.startPosition.column) ' ' ++ List.replicate diagnostic.caretCount '^') ++
      " " ++ diagnostic.headline := rfl
  have carets : Text.bytes (String.ofList
      (List.replicate ((toString diagnostic.startPosition.line ++ " |").length +
        diagnostic.startPosition.column) ' ' ++ List.replicate diagnostic.caretCount '^')) =
      diagnostic.caretLine := by
    have column : diagnostic.startPosition.column = diagnostic.startPosition.column - 1 + 1 := rfl
    rw [Text.bytes_ofList]
    · rw [caretLine, margin, List.length_append, length_bytes_number, column, List.map_append,
        List.map_replicate, List.map_replicate, List.length_singleton, Nat.add_sub_cancel,
        Nat.add_right_comm, Nat.add_assoc]
      rfl
    · rw [List.forall_mem_append]
      exact ⟨fun c member => List.eq_of_mem_replicate member ▸ by decide,
        fun c member => List.eq_of_mem_replicate member ▸ by decide⟩
  have lineEnd : Text.bytes "\n" = [10] := by decide
  have blank : Text.bytes " " = [32] := by decide
  rw [shown]
  simp only [Text.bytes_append, bytes_ofBytes_excerpt, carets, lineEnd, blank, sourceLine, margin,
    List.append_assoc, List.cons_append, List.nil_append]

/-! ## Alignment -/

/-- Positions and carets of a diagnostic fit its source. -/
structure Aligned : Prop where
  /-- The clamped bounds lie in the source and the shown line begins in front of them, so whatever
  is taken out of the source is there. -/
  inside : diagnostic.shownStart ≤ diagnostic.startOffset ∧
    diagnostic.startOffset ≤ diagnostic.stopOffset ∧
    diagnostic.stopOffset ≤ (Text.bytes diagnostic.source).length
  /-- The start is found from its line and column. -/
  start : Position.offset (Text.bytes diagnostic.source) diagnostic.startPosition =
    diagnostic.startOffset
  /-- The end is found from its line and column. -/
  stop : Position.offset (Text.bytes diagnostic.source) diagnostic.stopPosition =
    diagnostic.stopOffset
  /-- The start does not come behind the end. -/
  ordered : diagnostic.startPosition = diagnostic.stopPosition ∨
    diagnostic.startPosition.Before diagnostic.stopPosition
  /-- Later offsets have later positions. -/
  increasing : ∀ offset later, offset < later → later ≤ (Text.bytes diagnostic.source).length →
    (behind ((Text.bytes diagnostic.source).take offset)).Before
      (behind ((Text.bytes diagnostic.source).take later))
  /-- A report consists of the place, a line of the source and a line with carets and the
  message. -/
  report : Text.bytes (diagnostic.format false) =
    Text.bytes diagnostic.header ++ 10 :: (diagnostic.sourceLine ++ 10 :: (diagnostic.caretLine ++
      32 :: Text.bytes diagnostic.headline))
  /-- The line of the source is the one with the number of the start position, without the blanks
  at its end. -/
  line : ∃ line, (lines (Text.bytes diagnostic.source))[diagnostic.startPosition.line - 1]? =
      some line ∧
    diagnostic.sourceLine = diagnostic.margin ++ line.rdropWhile isTrailingBlank
  /-- The bytes of that line stand in the report where they belong. -/
  shown : ∀ offset, diagnostic.shownStart ≤ offset →
    offset < diagnostic.shownStart + diagnostic.excerpt.length →
    ∃ byte, (Text.bytes diagnostic.source)[offset]? = some byte ∧
      diagnostic.sourceLine[diagnostic.reportColumn offset]? = some byte
  /-- The carets stand below the start of the span and what follows it. -/
  carets : ∀ column, diagnostic.caretLine[column]? = some (Text.byteOf '^') ↔
    ∃ k < diagnostic.caretCount, column = diagnostic.reportColumn (diagnostic.startOffset + k)
  /-- There is a caret. -/
  positive : 1 ≤ diagnostic.caretCount
  /-- Of several carets each stands below a byte of the span that is shown. -/
  covered : 1 < diagnostic.caretCount → ∀ k < diagnostic.caretCount,
    diagnostic.startOffset + k < diagnostic.stopOffset ∧
      diagnostic.startOffset + k < diagnostic.shownStart + diagnostic.excerpt.length

/-- The carets stand in the columns from the start of the span on, as many as there are. -/
theorem getElem?_caretLine (column : Nat) :
    diagnostic.caretLine[column]? = some (Text.byteOf '^') ↔
      ∃ k < diagnostic.caretCount,
        column = diagnostic.margin.length + (diagnostic.startPosition.column - 1) + k := by
  unfold caretLine
  generalize diagnostic.margin.length + (diagnostic.startPosition.column - 1) = blanks
  rcases Nat.lt_or_ge column blanks with left | right
  · rw [List.getElem?_append_left (by simpa using left), List.getElem?_replicate, if_pos left]
    refine iff_of_false (by decide) ?_
    rintro ⟨k, -, rfl⟩
    omega
  · rw [List.getElem?_append_right (by simpa using right), List.getElem?_replicate,
      List.length_replicate]
    constructor
    · intro found
      split at found
      · exact ⟨column - blanks, by assumption, by omega⟩
      · cases found
    · rintro ⟨k, less, rfl⟩
      rw [Nat.add_sub_cancel_left, if_pos less]

/-- Positions and carets of every diagnostic fit its source, whatever its span. -/
theorem carets_are_aligned : diagnostic.Aligned := by
  have start := diagnostic.offset_startPosition
  have isColumn : diagnostic.startOffset - diagnostic.shownStart =
      diagnostic.startPosition.column - 1 := by
    rw [← start, Position.offset, shownStart, Nat.add_sub_cancel_left]
  have inFront : diagnostic.shownStart ≤ diagnostic.startOffset := by
    rw [← start]
    exact Nat.le_add_right _ _
  obtain ⟨line, isLine, isExcerpt, earlier, later, split, length, -⟩ := diagnostic.exists_shown_line
  refine {
    inside := ⟨inFront, diagnostic.offsets_inside⟩
    start := start
    stop := diagnostic.offset_stopPosition
    ordered := diagnostic.startPosition_le
    increasing := fun offset later => Position.before_behind_take
    report := diagnostic.bytes_format
    line := ⟨line, isLine, by rw [sourceLine, isExcerpt]⟩
    shown := fun offset atLeast less => ?shown
    carets := fun column => ?carets
    positive := Nat.le_max_left _ _
    covered := fun several k less => ?covered }
  case shown =>
    obtain ⟨blanks, trimmed⟩ := List.rdropWhile_prefix (p := isTrailingBlank) (l := line)
    rw [← isExcerpt] at trimmed
    have within : offset - diagnostic.shownStart < diagnostic.excerpt.length := by omega
    refine ⟨diagnostic.excerpt[offset - diagnostic.shownStart], ?_, ?_⟩
    · rw [split, List.getElem?_append_right (by omega), length, ← trimmed, List.append_assoc,
        List.getElem?_append_left within, List.getElem?_eq_getElem within]
    · rw [sourceLine, reportColumn, List.getElem?_append_right (Nat.le_add_right _ _),
        Nat.add_sub_cancel_left, List.getElem?_eq_getElem within]
  case carets =>
    rw [getElem?_caretLine]
    refine exists_congr fun k => and_congr_right fun _ => ?_
    rw [reportColumn, Nat.sub_add_comm inFront, isColumn, Nat.add_assoc]
  case covered =>
    have count : diagnostic.caretCount = min (diagnostic.stopOffset - diagnostic.startOffset)
        (diagnostic.excerpt.length - (diagnostic.startPosition.column - 1)) := by
      unfold caretCount at several ⊢
      omega
    omega

end Diagnostic
end ScopeScript
