import ScopeScript.Parser.Statement

/-!
# How an operand stands

Whether an operand begins a product, or is bound by an operator that binds as tightly as
multiplication or more so, can be told from the kinds of the tokens in front of it. A `Stance` is
what has to be remembered of them. A plus or minus binds its operand only if it does not stand
behind an operand. What ends an operand can be seen from the last token, except that keywords are
names behind a dot, and that the parenthesis behind the parameters of a function ends nothing.
-/

namespace ScopeScript

/-- What the tokens in front of a token make of it. -/
inductive Stance
  /-- An operand here begins a product. -/
  | free
  /-- An operand here is a later factor, an exponent or the operand of a prefix operator. -/
  | bound
  /-- An operand has ended. -/
  | ended
  /-- The name of a member follows. -/
  | member
  /-- The name of a declared function follows. -/
  | function
  /-- The parameters of a declared function follow. -/
  | functionName
  /-- A parameter or the end of the parameters follows. -/
  | parameters
  deriving DecidableEq

/-- The stance behind a token that is read as an operator, or as a part of an operand. A sign binds
what comes behind it if it is a prefix operator, and does not if it stands between two operands. -/
def TokenKind.stance (sign : Stance) : TokenKind → Stance
  | .mark .plus | .mark .minus => sign
  | .mark .star | .mark .slash | .mark .percent | .mark .caret => .bound
  | .mark .bang | .mark .tilde | .mark .plusPlus | .mark .minusMinus => .bound
  | .keyword .kwNot | .keyword .kwBnot | .keyword .kwAwait => .bound
  | .name | .number | .text => .ended
  | .keyword .kwTrue | .keyword .kwFalse | .keyword .kwNone => .ended
  | .mark .rightParen | .mark .rightBracket => .ended
  | .mark .dot => .member
  | .keyword .kwFn => .function
  | _ => .free

namespace Stance

/-- The stance behind a further token. -/
def after : Stance → TokenKind → Stance
  | .free, kind | .bound, kind => kind.stance .bound
  | .ended, kind => kind.stance .free
  | .member, _ => .ended
  | .function, _ => .functionName
  | .functionName, _ => .parameters
  | .parameters, kind => if kind = .mark .rightParen then .free else .parameters

/-- The stance behind some tokens. -/
def behind (stance : Stance) (tokens : List Token) : Stance :=
  tokens.foldl (fun stance token => stance.after token.kind) stance

end Stance

namespace Parser

/-! ## Operators -/

/-- Behind an operator in front of an operand everything is bound. -/
theorem stance_of_unaryOperator? {kind : TokenKind} {operator : UnaryOperator}
    (found : unaryOperator? kind = some operator) : kind.stance .bound = .bound := by
  unfold unaryOperator? at found
  split at found <;> first | rfl | cases found

/-- A factor behind an operator is bound. -/
theorem stance_of_factorLevel {kind : TokenKind} {operator : BinaryOperator}
    (found : factorLevel kind = some operator) : kind.stance .free = .bound := by
  unfold factorLevel at found
  split at found <;> first | rfl | cases found

/-- Behind an operator of an assignment an expression is free. -/
theorem stance_of_assignOperator? {kind : TokenKind} {operator : AssignOperator}
    (found : assignOperator? kind = some operator) : kind.stance .free = .free := by
  unfold assignOperator? at found
  split at found <;> first | rfl | cases found

/-- Behind the operators of a level a product begins, and a parenthesis is none of them. -/
structure Level.Loose (level : Level) : Prop where
  stance : ∀ kind operator, level kind = some operator → kind.stance .free = .free
  leftParen : level (.mark .leftParen) = none

/-- The operators of all binary levels leave what follows free. -/
theorem loose_binaryLevels : ∀ level ∈ binaryLevels, Level.Loose level := by
  simp only [binaryLevels, List.forall_mem_cons, List.not_mem_nil, false_implies, implies_true,
    and_true]
  refine ⟨?_, ?_, ?_, ?_, ?_, ?_, ?_, ?_, ?_, ?_⟩ <;>
    refine ⟨fun kind operator found => ?_, rfl⟩ <;>
    split at found <;> first | rfl | cases found

end Parser
end ScopeScript
