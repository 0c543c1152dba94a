import ScopeScript.Proofs.Lexer.Ending
import ScopeScript.Proofs.Parser.Juxtaposition
import ScopeScript.Proofs.Parser.TrailingStatements
import ScopeScript.Session

/-!
# Completing a line

A session adds a line break to each line and, unless the line ends with a semicolon or a closing
brace, a semicolon in front of it. It looks at the last character only, which may be part of a
comment or of a text, and what is added may get into a comment itself. But the line break adds
nothing to the words of the line, the semicolon adds itself or nothing, and a program is read the
same way with a semicolon behind it. So completing a line does not change what it is read as
(`completed_line_is_read_alike`).
-/

namespace ScopeScript

namespace Parser

/-- The token of a word, without a place. -/
def wordToken (word : TokenKind × List UInt8) : Token :=
  ⟨word.1, word.2, .null⟩

/-- The program that words are read as, without places. -/
def readProgram? (words : List (TokenKind × List UInt8)) : Option Program :=
  ((Parser.program (words.length + 1) ⟨words.map wordToken, none, .null⟩).toOption).map Prod.fst

/-- A semicolon behind a program makes no difference. -/
theorem readProgram?_semicolon (words : List (TokenKind × List UInt8)) (lexeme : List UInt8) :
    readProgram? (words ++ [(.mark .semicolon, lexeme)]) = readProgram? words := by
  have unplaced (words : List (TokenKind × List UInt8)) :
      (⟨words.map wordToken, none, .null⟩ : Stream).Unplaced := by
    refine ⟨fun token member => ?_, nofun, rfl⟩
    obtain ⟨word, -, rfl⟩ := List.mem_map.1 member
    rfl
  have trailing : Trailing (words.map wordToken)
      ((words ++ [(TokenKind.mark .semicolon, lexeme)]).map wordToken) := by
    rw [List.map_append]
    exact .of_concat _ rfl
  have room : (words.map wordToken).length < words.length + 1 := by simp
  have matched := Agrees.program trailing room _ _ rfl rfl (unplaced _) (unplaced _)
  rw [readProgram?, readProgram?, List.length_append, List.length_singleton]
  generalize Parser.program (words.length + 1) _ = attempt at matched ⊢
  generalize Parser.program (words.length + 1 + 1) _ = otherAttempt at matched ⊢
  cases matched with
  | both => rfl
  | neither => rfl

theorem runOn_unplaced (tokens : List Token) (size : Nat) (offset : UInt64) :
    (runOn Parser.program tokens size offset).toOption.map Program.unplaced =
      readProgram? (tokens.map Token.word) := by
  have stream : unplacedStream tokens = ⟨(tokens.map Token.word).map wordToken, none, .null⟩ := by
    rw [List.map_map]
    rfl
  refine Option.ext fun program => ?_
  have read := runOn_program_iff tokens size offset program
  rw [stream] at read
  rw [readProgram?, List.length_map]
  generalize runOn Parser.program tokens size offset = attempt at read ⊢
  generalize Parser.program (tokens.length + 1) _ = unplacedAttempt at read ⊢
  cases attempt <;> cases unplacedAttempt <;> simp_all [Except.toOption, Prod.ext_iff]

/-- What a text is read as, up to places, is what its words are read as. -/
theorem parseAt_unplaced (path source : String) (offset : UInt64) :
    (Program.parseAt path source offset).toOption.map Program.unplaced =
      (Token.words? (Text.bytes source)).bind readProgram? := by
  have unattached (attempt : Except Diagnostic Program) :
      (attempt.mapError (attach path source offset)).toOption = attempt.toOption := by
    cases attempt <;> rfl
  rw [Program.parseAt, unattached, parseWith]
  cases fault : (Token.scan source).fault? with
  | none =>
      rw [Token.words?_eq_some_iff.2 ⟨rfl, fault⟩, Option.bind_some]
      exact runOn_unplaced _ _ _
  | some diagnostic =>
      have noWords : Token.words? (Text.bytes source) = none := by
        refine Option.eq_none_iff_forall_ne_some.2 fun words found => ?_
        cases fault.symm.trans (Token.words?_eq_some_iff.1 found).2
      rw [noWords]
      rfl

end Parser

namespace Session

/-- The words of a completed line are read like those of the line. -/
theorem words?_complete (line : String) :
    (Token.words? (Text.bytes (complete line ++ "\n"))).bind Parser.readProgram? =
      (Token.words? (Text.bytes line)).bind Parser.readProgram? := by
  have lineBreak : Text.bytes "\n" = [10] := by decide
  have semicolon : Text.bytes ";" = [59] := by decide
  rw [Text.bytes_append, lineBreak, Token.words?_append_break, complete]
  split
  · rfl
  · rw [Text.bytes_append, semicolon]
    rcases Token.words?_append_semicolon (Text.bytes line) with same | added
    · rw [same]
    · rw [added, Option.bind_map]
      congr 1
      funext words
      exact Parser.readProgram?_semicolon words _

/-- Completing a line does not change what it is read as: the completed line is read as a program
exactly if the line itself is, and then as the same one, up to places. -/
theorem completed_line_is_read_alike (line path otherPath : String)
    (offset otherOffset : UInt64) :
    (Program.parseAt path (complete line ++ "\n") offset).toOption.map Program.unplaced =
      (Program.parseAt otherPath line otherOffset).toOption.map Program.unplaced := by
  rw [Parser.parseAt_unplaced, Parser.parseAt_unplaced, words?_complete]

/-- The closing brace of a comment is taken for the end of a statement, which the end of the line
then is. What is incomplete stays so. -/
example : complete "let x = 1 // \x7d" = "let x = 1 // \x7d" ∧
    (Program.parse path (complete "let x = 1 // \x7d" ++ "\n")).isOk = true ∧
    (Program.parse path (complete "let x = (1" ++ "\n")).isOk = false := by
  decide +kernel

end Session
end ScopeScript
