import ScopeScript.Proofs.Parser.Layout
import ScopeScript.Proofs.Parser.TwinStatements

/-!
# Multiplication without a star

A number in front of a name or a parenthesis is multiplied with it where it begins a product.
There the star makes no difference: with and without it, the same programs are read, up to places.
A number that is bound by an operator in front of it is not multiplied. Such a program is refused,
although it may be well-formed with the star (`star_may_be_left_out`).
-/

namespace ScopeScript

open Relocation (forget)

theorem Stance.behind_map_forget (stance : Stance) (tokens : List Token) :
    stance.behind (tokens.map forget.token) = stance.behind tokens :=
  List.foldl_map

namespace Parser

/-- The tokens of a stream without places. -/
def unplacedStream (tokens : List Token) : Stream :=
  ⟨tokens.map forget.token, none, .null⟩

theorem unplaced_unplacedStream (tokens : List Token) : (unplacedStream tokens).Unplaced where
  tokens token member := by
    obtain ⟨original, -, rfl⟩ := List.mem_map.1 member
    rfl
  previous? := nofun
  endSpan := rfl

/-- What tokens are read as, up to places, is what they are read as without places. -/
theorem runOn_program_iff (tokens : List Token) (size : Nat) (offset : UInt64)
    (program : Program) :
    (∃ read, runOn Parser.program tokens size offset = .ok read ∧ read.unplaced = program) ↔
      ∃ last, Parser.program (tokens.length + 1) (unplacedStream tokens) = .ok (program, last) := by
  generalize isStream : (⟨tokens.map (·.shift offset), none, ⟨size.toUInt64 + offset,
    size.toUInt64 + offset⟩⟩ : Stream) = stream
  have forgotten : forget.stream stream = unplacedStream tokens := by
    rw [← isStream]
    exact congrArg (Stream.mk · none .null) List.map_map
  have ran := Relocation.Commutes.program (tokens.length + 1) stream
    (Relocation.forget_covers stream)
  rw [forgotten] at ran
  simp only [runOn, isStream]
  cases read : Parser.program (tokens.length + 1) stream with
  | ok result =>
      rw [read] at ran
      obtain ⟨-, moved, ⟨rfl, -⟩, found⟩ := ran
      simp only [found, Except.ok.injEq, exists_eq_left', Prod.mk.injEq, exists_and_left,
        exists_eq', and_true]
      rfl
  | error fault =>
      rw [read] at ran
      simp [ran.2]

/-- A number in front of a name or a parenthesis and the same with a star in between are read as
the same programs, up to places, unless the number is bound by an operator in front of it. Then
nothing is read without the star. -/
theorem star_may_be_left_out {before rest tokens starred : List Token}
    {number star operand : Token} (isNumber : number.kind = .number)
    (isStar : star.kind = .mark .star)
    (opens : operand.kind = .name ∨ operand.kind = .mark .leftParen)
    (plain : tokens.map Token.word = (before ++ number :: operand :: rest).map Token.word)
    (withStar :
      starred.map Token.word = (before ++ number :: star :: operand :: rest).map Token.word)
    (size starredSize : Nat) (offset starredOffset : UInt64) (program : Program) :
    (∃ read, runOn Parser.program tokens size offset = .ok read ∧ read.unplaced = program) ↔
      Stance.free.behind before ≠ .bound ∧
        ∃ read, runOn Parser.program starred starredSize starredOffset = .ok read ∧
          read.unplaced = program := by
  let seam : Seam := {
    number := forget.token number
    star := forget.token star
    operand := forget.token operand
    rest := rest.map forget.token
    stance := Stance.free.behind before
    number_kind := isNumber
    star_kind := isStar
    operand_kind := opens }
  have linked : seam.Linked .free (tokens.map forget.token) (starred.map forget.token) := by
    rw [Relocation.map_forget_token plain, Relocation.map_forget_token withStar, List.map_append,
      List.map_append]
    exact .of_front _ (Stance.behind_map_forget _ before)
  have longer : starred.length = tokens.length + 1 := by
    have plainLength := congrArg List.length plain
    have starredLength := congrArg List.length withStar
    simp only [List.length_map, List.length_append, List.length_cons] at plainLength starredLength
    omega
  have room : (tokens.map forget.token).length < tokens.length + 1 := by simp
  have met := Seam.Twin.program linked room (unplacedStream tokens) (unplacedStream starred) rfl rfl
    (unplaced_unplacedStream _) (unplaced_unplacedStream _)
  rw [runOn_program_iff, runOn_program_iff, longer]
  generalize Parser.program (tokens.length + 1) (unplacedStream tokens) = attempt at met ⊢
  generalize Parser.program (tokens.length + 1 + 1) (unplacedStream starred) = otherAttempt at met ⊢
  cases met with
  | both _ _ loose => simp [show Stance.free.behind before ≠ .bound from loose]
  | neither => simp
  | refused isBound => simp [show Stance.free.behind before = .bound from isBound]
  | halted _ _ impossible => exact impossible.elim

theorem exists_eq_ok_iff {attempt : Except Diagnostic α} :
    (∃ value, attempt = .ok value) ↔ attempt.isOk = true := by
  cases attempt <;> simp [Except.isOk, Except.toBool]

/-- A number at the beginning of a statement is multiplied with the name behind it. -/
theorem number_in_front_is_multiplied :
    ∃ read starredRead,
      runOn Parser.program (Token.scan "2x;").tokens 3 0 = .ok read ∧
        runOn Parser.program (Token.scan "2*x;").tokens 4 0 = .ok starredRead ∧
        read.unplaced = starredRead.unplaced := by
  let two : Token := ⟨.number, Text.bytes "2", .null⟩
  let star : Token := ⟨.mark .star, Text.bytes "*", .null⟩
  let x : Token := ⟨.name, Text.bytes "x", .null⟩
  let semicolon : Token := ⟨.mark .semicolon, Text.bytes ";", .null⟩
  have plain : (Token.scan "2x;").tokens.map Token.word =
      ([] ++ two :: x :: [semicolon]).map Token.word := by decide +kernel
  have withStar : (Token.scan "2*x;").tokens.map Token.word =
      ([] ++ two :: star :: x :: [semicolon]).map Token.word := by decide +kernel
  obtain ⟨starredRead, starredFound⟩ : ∃ starredRead,
      runOn Parser.program (Token.scan "2*x;").tokens 4 0 = .ok starredRead :=
    exists_eq_ok_iff.2 (by decide +kernel)
  obtain ⟨read, found, same⟩ := (star_may_be_left_out rfl rfl (.inl rfl) plain withStar 3 4 0 0
    starredRead.unplaced).2 ⟨by decide, starredRead, starredFound, rfl⟩
  exact ⟨read, starredRead, found, starredFound, same⟩

/-- Behind an operator that binds the number the star may not be left out. -/
theorem bound_number_is_refused :
    (¬ ∀ (before rest : List Token) (number star operand : Token), number.kind = .number →
        star.kind = .mark .star → operand.kind = .name ∨ operand.kind = .mark .leftParen →
        ∀ size starredSize,
          ((∃ read, runOn Parser.program (before ++ number :: operand :: rest) size 0 = .ok read) ↔
            ∃ read, runOn Parser.program (before ++ number :: star :: operand :: rest)
              starredSize 0 = .ok read)) ∧
      (∀ source ∈ ["let x = 3; println(-2x);", "let x = 3; println(2*3x);",
        "let x = 3; println(2^2x);"], (Program.parse "main" source).isOk = false) ∧
      ∀ source ∈ ["let x = 3; println(-2*x);", "let x = 3; println(2*3*x);",
        "let x = 3; println(2^2*x);"], (Program.parse "main" source).isOk = true := by
  refine ⟨fun always => ?_, by decide +kernel, by decide +kernel⟩
  have same := always [⟨.mark .minus, Text.bytes "-", .null⟩]
    [⟨.mark .semicolon, Text.bytes ";", .null⟩] ⟨.number, Text.bytes "2", .null⟩
    ⟨.mark .star, Text.bytes "*", .null⟩ ⟨.name, Text.bytes "x", .null⟩ rfl rfl (.inl rfl) 4 5
  rw [exists_eq_ok_iff, exists_eq_ok_iff] at same
  exact absurd (same.2 (by decide +kernel)) (by decide +kernel)

end Parser
end ScopeScript
