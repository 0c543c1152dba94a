import ScopeScript.Decimal.Integer
import ScopeScript.Text.Styled

/-!
# Settings documents

The small part of YAML that settings are written in: mappings from keys to scalars or to further
mappings, nested by indentation, with comments. Scalars are plain or quoted. A collection in
brackets is recognised, but its contents are not looked at.

`Document.parse?` reads a document line by line; the lines are then nested from the last one to
the first, so that everything below a line is known when the line is reached.
-/

namespace ScopeScript

/-- A settings document. -/
inductive Document
  | plain (text : String)
  | quoted (text : String)
  | collection
  | mapping (entries : List (String × Document))
  deriving Inhabited

namespace Document

/-- A line with a key. Without a value the lines below belong to it. -/
structure Line where
  indent : Nat
  key : String
  value? : Option Document

/-- Whether a character separates words within a line. -/
def isSpace (c : Char) : Bool :=
  c == ' ' || c == '\t'

/-- Remove spaces at the end. -/
def trimEnd (chars : List Char) : List Char :=
  (chars.reverse.dropWhile isSpace).reverse

/-- Whether nothing but a comment follows. -/
def isRemainder (chars : List Char) : Bool :=
  match chars.dropWhile isSpace with
  | [] => true
  | c :: _ => c == '#' && (chars.head?.any isSpace)

/-- The value of a given number of hexadecimal digits, and what follows. -/
def hexCode? (count : Nat) (chars : List Char) : Option (Char × List Char) := do
  guard (count ≤ chars.length)
  let code ← Decimal.readNatural? 16 (chars.take count)
  return (Char.ofNat code, chars.drop count)

/-- The character that is written by an escape, and what follows. -/
def escaped? : List Char → Option (Char × List Char)
  | [] => none
  | 'x' :: rest => hexCode? 2 rest
  | 'u' :: rest => hexCode? 4 rest
  | 'U' :: rest => hexCode? 8 rest
  | c :: rest => do
      let code ← match c with
        | '0' => some 0
        | 'a' => some 7
        | 'b' => some 8
        | 't' => some 9
        | 'n' => some 10
        | 'v' => some 11
        | 'f' => some 12
        | 'r' => some 13
        | 'e' => some 27
        | ' ' => some 32
        | '"' => some 34
        | '/' => some 47
        | '\\' => some 92
        | 'N' => some 0x85
        | '_' => some 0xA0
        | 'L' => some 0x2028
        | 'P' => some 0x2029
        | _ => none
      return (Char.ofNat code, rest)

/-- Read a text in double quotes behind its first quote, and what follows the last one. The first
argument bounds the number of characters. -/
def readQuoted? : Nat → List Char → Option (List Char × List Char)
  | 0, _ => none
  | _, [] => none
  | bound + 1, c :: rest =>
      if c = '"' then
        some ([], rest)
      else if c = '\\' then do
        let (character, rest) ← escaped? rest
        let (text, rest) ← readQuoted? bound rest
        return (character :: text, rest)
      else do
        let (text, rest) ← readQuoted? bound rest
        return (c :: text, rest)

/-- The single quote. -/
def singleQuote : Char := Char.ofNat 39

/-- Read a text in single quotes behind its first quote, and what follows the last one. A quote is
written twice inside. -/
def readLiteral? : List Char → Option (List Char × List Char)
  | [] => none
  | c :: rest =>
      if c = singleQuote then
        match rest with
        | next :: later =>
            if next = singleQuote then do
              let (text, rest) ← readLiteral? later
              return (singleQuote :: text, rest)
            else
              some ([], rest)
        | [] => some ([], [])
      else do
        let (text, rest) ← readLiteral? rest
        return (c :: text, rest)

/-- Read a quoted text if there is one; `none` if its quote is not closed. -/
def quotedText? : List Char → Option (Option (List Char × List Char))
  | c :: rest =>
      if c = '"' then (readQuoted? (rest.length + 1) rest).map some
      else if c = singleQuote then (readLiteral? rest).map some
      else some none
  | [] => some none

/-- Split a plain text in front of a comment. -/
def cutComment : List Char → List Char
  | [] => []
  | c :: rest =>
      if isSpace c && rest.head? == some '#' then [] else c :: cutComment rest

/-- Split at the first colon that ends a key. -/
def splitColon? : List Char → Option (List Char × List Char)
  | [] => none
  | c :: rest =>
      if c = ':' ∧ (rest.head?.all isSpace) then
        some ([], rest)
      else
        (splitColon? rest).map fun (key, value) => (c :: key, value)

/-- Whether a character cannot begin a plain text. -/
def isIndicator (c : Char) : Bool :=
  c == '[' || c == ']' || c == '\x7b' || c == '\x7d' || c == ',' || c == '#' || c == '&' ||
    c == '*' || c == '!' || c == '|' || c == '>' || c == '"' || c == singleQuote || c == '%' ||
    c == '@' || c.toNat == 96

/-- Whether a text can be written without quotes. -/
def isPlain (chars : List Char) : Bool :=
  match chars with
  | [] => false
  | c :: rest =>
      !isIndicator c && !((c == '-' || c == '?' || c == ':') && rest.head?.all isSpace) &&
        (splitColon? chars).isNone

/-- What follows a collection of which the given number of brackets are open. -/
def closeBrackets? : Nat → List Char → Option (List Char)
  | 0, rest => some rest
  | _ + 1, [] => none
  | depth + 1, c :: rest =>
      if c = '[' ∨ c = '\x7b' then closeBrackets? (depth + 2) rest
      else if c = ']' ∨ c = '\x7d' then closeBrackets? depth rest
      else closeBrackets? (depth + 1) rest

/-- The value behind a key; there may be none on the line. -/
def value? (chars : List Char) : Option (Option Document) := do
  let chars := chars.dropWhile isSpace
  match ← quotedText? chars with
  | some (text, rest) =>
      guard (isRemainder rest)
      return some (quoted (String.ofList text))
  | none =>
      match chars with
      | [] => return none
      | '#' :: _ => return none
      | c :: rest =>
          if c = '[' ∨ c = '\x7b' then
            guard (isRemainder (← closeBrackets? 1 rest))
            return some collection
          else
            let text := trimEnd (cutComment chars)
            guard (isPlain text)
            return some (plain (String.ofList text))

/-- The key of a line and what follows its colon. -/
def key? (chars : List Char) : Option (List Char × List Char) := do
  match ← quotedText? chars with
  | some (text, rest) =>
      match rest.dropWhile isSpace with
      | ':' :: rest =>
          guard (rest.head?.all isSpace)
          return (text, rest)
      | _ => none
  | none =>
      let (key, _) ← splitColon? (cutComment chars)
      guard (isPlain (trimEnd key))
      return (trimEnd key, chars.drop (key.length + 1))

/-- Read a line; lines without content are dropped. -/
def readLine? (chars : List Char) : Option (Option Line) := do
  let indent := (chars.takeWhile (· == ' ')).length
  let body := chars.drop indent
  match body.dropWhile isSpace with
  | [] => return none
  | '#' :: _ => return none
  | _ =>
      guard (!body.head?.any isSpace)
      let (key, rest) ← key? body
      return some ⟨indent, String.ofList key, ← value? rest⟩

/-- Entries of equal indentation. -/
structure Group where
  indent : Nat
  entries : List (String × Document)

/-- Put an entry in front of the entries below it. -/
def addEntry (indent : Nat) (entry : String × Document) : List Group → Option (List Group)
  | [] => some [⟨indent, [entry]⟩]
  | group :: groups =>
      if group.indent = indent then some (⟨indent, entry :: group.entries⟩ :: groups)
      else if group.indent < indent then some (⟨indent, [entry]⟩ :: group :: groups)
      else none

/-- Put a line in front of the lines below it. Deeper lines belong to it. -/
def addLine (line : Line) (groups : List Group) : Option (List Group) :=
  match groups, line.value? with
  | group :: rest, some value =>
      if line.indent < group.indent then none
      else addEntry line.indent (line.key, value) (group :: rest)
  | [], some value => addEntry line.indent (line.key, value) []
  | group :: rest, none =>
      if line.indent < group.indent then
        addEntry line.indent (line.key, mapping group.entries) rest
      else
        addEntry line.indent (line.key, plain "") (group :: rest)
  | [], none => addEntry line.indent (line.key, plain "") []

/-- Nest lines by their indentation. -/
def ofLines? (lines : List Line) : Option Document := do
  match ← lines.foldrM addLine [] with
  | [] => return plain ""
  | [group] => return mapping group.entries
  | _ => none

/-- The line that separates documents. -/
def separator : String := "---"

/-- The lines of the first document of a text. -/
def firstDocument (lines : List String) : List String :=
  let lines := match lines with
    | first :: rest => if first = separator then rest else lines
    | [] => []
  lines.takeWhile fun line => line != separator && line != "..."

/-- Read a document; `none` if it is not well formed. -/
def parse? (text : String) : Option Document := do
  let lines := (Text.lines text).map fun line =>
    String.ofList (line.toList.filter (· != '\r'))
  let read ← (firstDocument lines).mapM fun line => readLine? line.toList
  ofLines? (read.filterMap id)

/-- Whether a document is the empty value. -/
def isNull : Document → Bool
  | plain text => ["", "~", "null", "Null", "NULL"].contains text
  | _ => false

/-- The truth value of a scalar. -/
def bool? : Document → Option Bool
  | plain "true" | plain "True" | plain "TRUE" => some true
  | plain "false" | plain "False" | plain "FALSE" => some false
  | plain text | quoted text =>
      if ["y", "Y", "yes", "on"].contains text then some true
      else if ["n", "N", "no", "off"].contains text then some false
      else none
  | _ => none

/-- The integer part of a number with a fraction or an exponent. -/
def fractional? (text : String) : Option Int := do
  guard (text.toList.all fun c => c.isDigit || c == '.' || c == 'e' || c == 'E' || c == '+' ||
    c == '-')
  let number ← Decimal.read? text
  let value ← (Binary64.ofFloat number).truncate?
  guard (value ≤ Decimal.greatestInteger + 1)
  return (Binary64.ofFloat number).toSignedWord

/-- Whether a text begins like a number. -/
def beginsNumber (text : String) : Bool :=
  match text.toList with
  | c :: _ => c.isDigit || c == '+' || c == '-' || c == '.'
  | [] => false

/-- The integer of a scalar. One that fits into an unsigned word only is refused. -/
def integer? : Document → Option Int
  | plain text => do
      guard (beginsNumber text)
      let rounded? := fractional? (String.ofList (text.toList.filter (· != '_')))
      match Decimal.readUnbounded? text.toList with
      | some value =>
          if 0 ≤ value ∧ value < Binary64.wordCount then Decimal.fitting? value
          else (Decimal.fitting? value).or rounded?
      | none => rounded?
  | _ => none

/-- The text of a scalar. -/
def text? : Document → Option String
  | plain text | quoted text => some text
  | _ => none

/-- The entries of a mapping without repeated keys. -/
def entries? : Document → Option (List (String × Document))
  | mapping entries =>
      if (entries.map (·.1)).Nodup then some entries else none
  | _ => none

end Document

end ScopeScript
