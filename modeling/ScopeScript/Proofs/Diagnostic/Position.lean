import Mathlib.Algebra.GroupWithZero.Nat
import Mathlib.Data.List.DropRight
import ScopeScript.Diagnostic

/-!
# Lines and columns

The position behind some bytes counts their line breaks and the bytes behind the last one. In a
source text it belongs to the line with that number, so the offset can be found again from the
position (`offset_behind`). Positions are compared by lines first and then by columns; a later
offset has a later position (`before_behind`).
-/

namespace ScopeScript
namespace Position

/-- The lines of a source text, without their line breaks. -/
def lines (source : List UInt8) : List (List UInt8) :=
  source.splitOn lineBreak

/-- Number of bytes in front of a line and its bytes; lines are counted from one. -/
def lineStart (source : List UInt8) (line : Nat) : Nat :=
  (((lines source).take (line - 1)).map (·.length + 1)).sum

/-- Number of bytes in front of a position. -/
def offset (source : List UInt8) (position : Position) : Nat :=
  lineStart source position.line + (position.column - 1)

/-- A position is on an earlier line than another one, or further left on the same line. -/
def Before (position other : Position) : Prop :=
  position.line < other.line ∨ position.line = other.line ∧ position.column < other.column

/-! ## Lines -/

/-- There is one line more than there are line breaks. -/
theorem length_lines (source : List UInt8) :
    (lines source).length = source.count lineBreak + 1 := by
  induction source with
  | nil => rfl
  | cons byte source inductionHypothesis =>
      unfold lines at inductionHypothesis ⊢
      rw [List.splitOn_cons_eq_if_modifyHead, List.count_cons]
      split <;> simp [inductionHypothesis]

/-- The lines and their breaks make up the source. -/
theorem sum_lines (source : List UInt8) :
    ((lines source).map (·.length + 1)).sum = source.length + 1 := by
  induction source with
  | nil => rfl
  | cons byte source inductionHypothesis =>
      unfold lines at inductionHypothesis ⊢
      rw [List.splitOn_cons_eq_if_modifyHead]
      obtain ⟨first, others, shape⟩ :=
        List.exists_cons_of_ne_nil (List.splitOn_ne_nil lineBreak source)
      rw [shape] at inductionHypothesis ⊢
      simp only [List.map_cons, List.sum_cons] at inductionHypothesis
      split <;>
        simp only [List.modifyHead_cons, List.map_cons, List.sum_cons, List.length_cons,
          List.length_nil] <;>
        omega

/-- What follows the bytes up to the next line break is nothing or begins with that line break. -/
theorem exists_lineRest (rest : List UInt8) :
    ∃ later, rest = rest.takeWhile (· != lineBreak) ++ later ∧
      (later = [] ∨ ∃ others, later = lineBreak :: others) := by
  refine ⟨_, List.takeWhile_append_dropWhile.symm, ?_⟩
  cases tail : rest.dropWhile (· != lineBreak) with
  | nil => exact .inl rfl
  | cons byte others =>
      have stopped := List.head_dropWhile_not (· != lineBreak) (l := rest) (by simp [tail])
      have isBreak : byte = lineBreak := by simpa [tail] using stopped
      exact .inr ⟨others, by rw [isBreak]⟩

/-- The first line goes on to the first line break. -/
theorem exists_first_line {front : List UInt8} (oneLine : lineBreak ∉ front) (rest : List UInt8) :
    ∃ later, lines (front ++ rest) = (front ++ rest.takeWhile (· != lineBreak)) :: later := by
  have leading : lineBreak ∉ front ++ rest.takeWhile (· != lineBreak) := by
    rw [List.mem_append, not_or]
    exact ⟨oneLine, fun member => by simpa using List.mem_takeWhile_imp member⟩
  obtain ⟨later, split, rfl | ⟨others, rfl⟩⟩ := exists_lineRest rest
  · rw [List.append_nil] at split
    rw [← split] at leading ⊢
    exact ⟨[], List.splitOn_eq_singleton leading⟩
  · refine ⟨lines others, ?_⟩
    nth_rewrite 1 [split]
    rw [← List.append_assoc]
    exact List.splitOn_append_cons_self_of_not_mem leading _

/-! ## Positions in lines -/

/-- The bytes behind the last line break. -/
def lineFront (before : List UInt8) : List UInt8 :=
  before.rtakeWhile (· != lineBreak)

/-- The column counts the bytes since the last line break. -/
theorem column_behind (before : List UInt8) :
    (behind before).column = (lineFront before).length + 1 := by
  rw [lineFront, List.rtakeWhile, List.length_reverse]
  rfl

/-- The front of a line contains no line break. -/
theorem lineBreak_notMem_lineFront (before : List UInt8) : lineBreak ∉ lineFront before :=
  fun member => by simpa using List.mem_rtakeWhile_imp member

/-- What stands in front of the last line is nothing or ends with a line break. -/
theorem exists_lineFront (before : List UInt8) :
    ∃ earlier, before = earlier ++ lineFront before ∧
      (earlier = [] ∨ ∃ others, earlier = others ++ [lineBreak]) := by
  refine ⟨_, List.rdropWhile_append_rtakeWhile.symm, ?_⟩
  by_cases nothing : before.rdropWhile (· != lineBreak) = []
  · exact .inl nothing
  · have last := List.rdropWhile_last_not (· != lineBreak) before nothing
    rw [bne_iff_ne, not_not] at last
    have ended := List.dropLast_append_getLast nothing
    rw [last] at ended
    exact .inr ⟨_, ended.symm⟩

/-- The line of the position behind some bytes, in a text that begins with these bytes. -/
theorem exists_line_behind (before rest : List UInt8) :
    ∃ earlier later, lines (before ++ rest) =
        earlier ++ (lineFront before ++ rest.takeWhile (· != lineBreak)) :: later ∧
      earlier.length = before.count lineBreak ∧
      (earlier.map (·.length + 1)).sum + (lineFront before).length = before.length := by
  obtain ⟨later, first⟩ := exists_first_line (lineBreak_notMem_lineFront before) rest
  have noBreak := List.count_eq_zero_of_not_mem (lineBreak_notMem_lineFront before)
  obtain ⟨earlier, split, isEarlier⟩ := exists_lineFront before
  have count := congrArg (List.count lineBreak) split
  have length := congrArg List.length split
  rw [List.count_append, noBreak, Nat.add_zero] at count
  rw [List.length_append] at length
  rcases isEarlier with rfl | ⟨others, rfl⟩
  · refine ⟨[], later, ?_, count.symm, length.symm⟩
    nth_rewrite 1 [split]
    exact first
  · refine ⟨lines others, later, ?_, ?_, ?_⟩
    · nth_rewrite 1 [split]
      rw [List.append_assoc, List.append_assoc, List.singleton_append, ← first]
      exact List.splitOn_append_cons_self _ _
    · rw [length_lines, count, List.count_append, List.count_singleton_self]
    · rw [sum_lines, length, List.length_append, List.length_singleton]

/-- The bytes of a line in front of a position belong to the bytes in front of that position. -/
theorem column_behind_le (before : List UInt8) : (behind before).column - 1 ≤ before.length := by
  have inside := (List.rtakeWhile_suffix (· != lineBreak) before).length_le
  rw [column_behind]
  exact inside

/-- The line of a position starts as many bytes before it as its column says. -/
theorem lineStart_behind (before rest : List UInt8) :
    lineStart (before ++ rest) (behind before).line =
      before.length - ((behind before).column - 1) := by
  obtain ⟨earlier, later, split, count, length⟩ := exists_line_behind before rest
  have front : ((lines (before ++ rest)).take ((behind before).line - 1)) = earlier := by
    rw [split]
    exact List.take_left' count
  rw [lineStart, front, column_behind]
  omega

/-- The offset of a position behind some bytes is their number. -/
theorem offset_behind (before rest : List UInt8) :
    offset (before ++ rest) (behind before) = before.length := by
  have inside := column_behind_le before
  rw [offset, lineStart_behind]
  omega

/-- The line of a position, by its number. -/
theorem getElem?_lines_behind (before rest : List UInt8) :
    (lines (before ++ rest))[(behind before).line - 1]? =
      some (lineFront before ++ rest.takeWhile (· != lineBreak)) := by
  obtain ⟨earlier, later, split, count, -⟩ := exists_line_behind before rest
  have number : (behind before).line - 1 = earlier.length := count.symm
  rw [split, number, List.getElem?_append_right (Nat.le_refl _), Nat.sub_self,
    List.getElem?_cons_zero]

/-! ## The order of positions -/

/-- More bytes make a later position. -/
theorem before_behind (front : List UInt8) {more : List UInt8} (someBytes : more ≠ []) :
    (behind front).Before (behind (front ++ more)) := by
  have positive := List.length_pos_iff.2 someBytes
  by_cases breaks : lineBreak ∈ more
  · have count := List.count_pos_iff.2 breaks
    refine .inl ?_
    simp only [behind, List.count_append]
    omega
  · have count := List.count_eq_zero_of_not_mem breaks
    have members : ∀ byte ∈ more.reverse, (byte != lineBreak) = true := by
      intro byte member
      rw [bne_iff_ne]
      rintro rfl
      exact breaks (List.mem_reverse.1 member)
    refine .inr ⟨?_, ?_⟩
    · simp only [behind, List.count_append, count, Nat.add_zero]
    · simp only [behind, List.reverse_append, List.takeWhile_append_of_pos members,
        List.length_append, List.length_reverse]
      omega

/-- A later offset has a later position. -/
theorem before_behind_take {source : List UInt8} {offset later : Nat} (less : offset < later)
    (inside : later ≤ source.length) :
    (behind (source.take offset)).Before (behind (source.take later)) := by
  have split := List.take_append_drop offset (source.take later)
  rw [List.take_take, Nat.min_eq_left (Nat.le_of_lt less)] at split
  rw [← split]
  refine before_behind _ (List.length_pos_iff.1 ?_)
  rw [List.length_drop, List.length_take]
  omega

end Position
end ScopeScript
