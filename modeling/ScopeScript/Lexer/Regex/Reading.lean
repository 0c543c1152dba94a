import ScopeScript.Lexer.Regex
import ScopeScript.Text.Bytes

/-!
# Written regular expressions

Most bytes of a written expression stand for themselves. The others are

* `.` for any byte, and `[a-z_]` or `[^a-z_]` for one byte of a class,
* `*`, `+` and `?` behind an item for its repetition,
* `|` between alternatives, and parentheses around a group.

A backslash makes the following byte stand for itself, except for `n`, `r` and `t`, which stand
for the control characters of these names, and, outside of brackets, for `d`, `s`, `w` and their
capitals, which stand for the digits, blanks and word bytes and for all others.

A text is read in two steps: first into signs, then into an expression. A text is no expression
if a backslash or an opening bracket has nothing to end it, if parentheses do not pair, if an
alternative is empty, or if one of `* + ? ) ] ^` stands where it has no meaning.
-/

namespace ScopeScript
namespace Lexer

namespace ByteClass

/-- Decimal digits. -/
def digits : ByteClass :=
  ⟨[(Text.byteOf '0', Text.byteOf '9')], false⟩

/-- Blanks: space, tab, line feed, carriage return and form feed. -/
def blanks : ByteClass :=
  ⟨[(32, 32), (9, 9), (10, 10), (13, 13), (12, 12)], false⟩

/-- Digits, letters and the underscore. -/
def wordBytes : ByteClass :=
  ⟨[(Text.byteOf '0', Text.byteOf '9'), (Text.byteOf 'a', Text.byteOf 'z'),
    (Text.byteOf 'A', Text.byteOf 'Z'), (Text.byteOf '_', Text.byteOf '_')], false⟩

end ByteClass

namespace Regex

/-- How often an item is repeated. -/
inductive Repetition
  | anyNumber
  | atLeastOne
  | atMostOne

/-- The repetition of an expression. -/
def Repetition.of : Repetition → Regex → Regex
  | anyNumber => .anyNumber
  | atLeastOne => .atLeastOne
  | atMostOne => .atMostOne

/-- A sign of a written expression. -/
inductive Sign
  | bytes (bytes : ByteClass)
  | repetition (repetition : Repetition)
  | bar
  | opening
  | closing

/-- The byte that an escaped byte stands for. -/
def unescaped (byte : UInt8) : UInt8 :=
  if byte = Text.byteOf 'n' then 10
  else if byte = Text.byteOf 'r' then 13
  else if byte = Text.byteOf 't' then 9
  else byte

/-- The class that an escaped byte stands for outside of brackets. -/
def escapedClass (byte : UInt8) : ByteClass :=
  if byte = Text.byteOf 'd' then .digits
  else if byte = Text.byteOf 'D' then ByteClass.digits.invert
  else if byte = Text.byteOf 's' then .blanks
  else if byte = Text.byteOf 'S' then ByteClass.blanks.invert
  else if byte = Text.byteOf 'w' then .wordBytes
  else if byte = Text.byteOf 'W' then ByteClass.wordBytes.invert
  else .one (unescaped byte)

/-- The sign of a byte that is neither a backslash nor an opening bracket; a closing bracket and
`^` are no signs. -/
def plainSign? (byte : UInt8) : Option Sign :=
  if byte = Text.byteOf '*' then some (.repetition .anyNumber)
  else if byte = Text.byteOf '+' then some (.repetition .atLeastOne)
  else if byte = Text.byteOf '?' then some (.repetition .atMostOne)
  else if byte = Text.byteOf '|' then some .bar
  else if byte = Text.byteOf '(' then some .opening
  else if byte = Text.byteOf ')' then some .closing
  else if byte = Text.byteOf '.' then some (.bytes .all)
  else if byte = Text.byteOf ']' ∨ byte = Text.byteOf '^' then none
  else some (.bytes (.one byte))

/-- One end of a range, and the text behind it. -/
def rangeEnd? : List UInt8 → Option (UInt8 × List UInt8)
  | [] => none
  | byte :: rest =>
      if byte = Text.byteOf '\\' then
        match rest with
        | [] => none
        | next :: rest => some (unescaped next, rest)
      else
        some (byte, rest)

theorem length_lt_of_rangeEnd?_eq_some {input rest : List UInt8} {byte : UInt8}
    (found : rangeEnd? input = some (byte, rest)) : rest.length < input.length := by
  unfold rangeEnd? at found
  split at found
  · cases found
  · split at found
    · split at found
      · cases found
      · cases found
        simp only [List.length_cons]
        omega
    · cases found
      simp

/-- One range, and the text behind it. A byte that no hyphen follows is a range of its own. -/
def range? (input : List UInt8) : Option ((UInt8 × UInt8) × List UInt8) :=
  match rangeEnd? input with
  | none => none
  | some (low, []) => some ((low, low), [])
  | some (low, byte :: rest) =>
      if byte = Text.byteOf '-' then
        (rangeEnd? rest).map fun (high, rest) => ((low, high), rest)
      else
        some ((low, low), byte :: rest)

theorem length_lt_of_range?_eq_some {input rest : List UInt8} {range : UInt8 × UInt8}
    (found : range? input = some (range, rest)) : rest.length < input.length := by
  unfold range? at found
  split at found
  · cases found
  · rename_i low first
    cases found
    exact length_lt_of_rangeEnd?_eq_some first
  · rename_i low byte behind first
    have shorter := length_lt_of_rangeEnd?_eq_some first
    simp only [List.length_cons] at shorter
    split at found
    · obtain ⟨⟨high, tail⟩, second, equal⟩ := Option.map_eq_some_iff.1 found
      cases equal
      have := length_lt_of_rangeEnd?_eq_some second
      omega
    · cases found
      simpa using shorter

/-- The ranges up to the closing bracket, and the text behind it. -/
def ranges? (input : List UInt8) : Option (List (UInt8 × UInt8) × List UInt8) :=
  if input.head? = some (Text.byteOf ']') then
    some ([], input.tail)
  else
    match _ : range? input with
    | none => none
    | some (range, rest) => (ranges? rest).map fun (ranges, rest) => (range :: ranges, rest)
termination_by input.length
decreasing_by exact length_lt_of_range?_eq_some ‹_›

theorem length_lt_of_ranges?_eq_some {input rest : List UInt8} {ranges : List (UInt8 × UInt8)}
    (found : ranges? input = some (ranges, rest)) : rest.length < input.length := by
  fun_induction ranges? input generalizing ranges rest with
  | case1 input closed =>
      cases input with
      | nil => simp at closed
      | cons byte tail =>
          cases found
          simp
  | case2 => cases found
  | case3 input _ range behind first ih =>
      obtain ⟨⟨others, tail⟩, second, equal⟩ := Option.map_eq_some_iff.1 found
      cases equal
      have := length_lt_of_range?_eq_some first
      have := ih second
      omega

/-- The class between an opening bracket and its closing one, and the text behind it. A class
has at least one range. -/
def class? (input : List UInt8) : Option (ByteClass × List UInt8) :=
  let inverted := input.head? = some (Text.byteOf '^')
  match ranges? (if inverted then input.tail else input) with
  | some (range :: ranges, rest) => some (⟨range :: ranges, inverted⟩, rest)
  | _ => none

theorem length_lt_of_class?_eq_some {input rest : List UInt8} {bytes : ByteClass}
    (found : class? input = some (bytes, rest)) : rest.length < input.length := by
  unfold class? at found
  simp only at found
  split at found
  · rename_i range ranges behind first
    cases found
    have := length_lt_of_ranges?_eq_some first
    split at this
    · simp only [List.length_tail] at this
      omega
    · exact this
  · cases found

/-- The signs of a written expression. -/
def signs? : List UInt8 → Option (List Sign)
  | [] => some []
  | byte :: rest =>
      if byte = Text.byteOf '\\' then
        match rest with
        | [] => none
        | next :: rest => (signs? rest).map (.bytes (escapedClass next) :: ·)
      else if byte = Text.byteOf '[' then
        match _ : class? rest with
        | none => none
        | some (bytes, rest) => (signs? rest).map (.bytes bytes :: ·)
      else
        match plainSign? byte with
        | none => none
        | some sign => (signs? rest).map (sign :: ·)
termination_by input => input.length
decreasing_by
  · simp only [List.length_cons]
    omega
  · have := length_lt_of_class?_eq_some ‹_›
    simp only [List.length_cons]
    omega
  · simp

/-- A group that is being read: its alternatives before the last bar, and the items behind it,
the last one first. -/
structure Group where
  earlier? : Option Regex
  items : List Regex

namespace Group

/-- A group of which nothing is read. -/
def start : Group :=
  ⟨none, []⟩

/-- A group with one more item. -/
def push (group : Group) (item : Regex) : Group :=
  { group with items := item :: group.items }

/-- What a group stands for if it ends here. -/
def finish? (group : Group) : Option Regex :=
  match group.items with
  | [] => none
  | last :: before =>
      let alternative := before.foldl (fun rest item => sequence item rest) last
      some (match group.earlier? with
        | none => alternative
        | some earlier => either earlier alternative)

end Group

/-- Read signs into a group, inside of the groups that are still open. -/
def build? : List Group → Group → List Sign → Option Regex
  | [], group, [] => group.finish?
  | _ :: _, _, [] => none
  | outer, group, .bytes bytes :: signs => build? outer (group.push (oneOf bytes)) signs
  | outer, group, .repetition repetition :: signs =>
      match group.items with
      | [] => none
      | item :: items => build? outer { group with items := repetition.of item :: items } signs
  | outer, group, .bar :: signs =>
      match group.finish? with
      | none => none
      | some earlier => build? outer ⟨some earlier, []⟩ signs
  | outer, group, .opening :: signs => build? (group :: outer) .start signs
  | [], _, .closing :: _ => none
  | parent :: outer, group, .closing :: signs =>
      match group.finish? with
      | none => none
      | some item => build? outer (parent.push item) signs

/-- The expression that a text writes. -/
def ofBytes? (text : List UInt8) : Option Regex :=
  match signs? text with
  | none => none
  | some signs => build? [] .start signs

end Regex
end Lexer
end ScopeScript
