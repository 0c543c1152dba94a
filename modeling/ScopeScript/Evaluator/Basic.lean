import ScopeScript.Machine
import ScopeScript.Value.Operation

/-!
# Recursion of the evaluator

The evaluator is written as steps that call themselves only through a record of evaluators. The
record of the next smaller amount of fuel is what a step gets; without fuel an evaluation does not
end. So fuel bounds the nesting of steps and the number of rounds of a loop, and a result does not
depend on how much fuel was left.
-/

namespace ScopeScript

/-- How control leaves a statement. -/
inductive Flow
  | proceed
  | leaveLoop
  | nextRound
  | result (value : Value)
  | thrown (value : Value) (span : Span)
  deriving Inhabited

/-- The evaluators a step may use. -/
structure Recursion where
  evaluate : Expr → Eval Value
  execute : List Stmt → Eval Flow
  fuel : Nat

/-- A call as the callee sees it: where it stands and under which name it was made. -/
structure CallSite where
  span : Span
  callee : String
  deriving DecidableEq, Repr, Inhabited

namespace Evaluator

/-- Evaluate expressions from left to right. -/
def evaluateAll (recursion : Recursion) : List Expr → Eval (List Value)
  | [] => return []
  | expr :: rest => do
      let value ← recursion.evaluate expr
      let values ← evaluateAll recursion rest
      return value :: values

/-- Evaluate an expression that may be missing. -/
def evaluateOptional (recursion : Recursion) : Option Expr → Eval Value
  | none => return .none
  | some expr => recursion.evaluate expr

/-- Apply a binary operator. -/
def applyBinary (operator : BinaryOperator) (left right : Value) : Eval Value :=
  match operator.result? left right with
  | some value => return value
  | none => do
      Eval.update fun machine => { machine with stuckOn? := some (operator, left, right) }
      Eval.endless

/-- The value of a binding that holds `value`: a formula is evaluated now. -/
def dereference (recursion : Recursion) (span : Span) : Value → Eval Value
  | .formula formula =>
      Eval.deeper span (Eval.within formula.origin (recursion.evaluate formula.expr))
  | value => return value

/-- The value of a name in the active scopes. -/
def lookup (recursion : Recursion) (span : Span) (name : String) : Eval Value := do
  let (_, value) ← Eval.onVaultAt span (Vault.resolve name)
  dereference recursion span value

/-- Position that a key selects in a list of the given length. -/
def position? (key : Value) (length : Nat) : Option Nat :=
  match key with
  | .number number =>
      match Binary64.ofFloat number with
      | .notANumber => none
      | exact =>
          let index := exact.toSignedWord
          if 0 ≤ index ∧ index < length then some index.toNat else none
  | _ => none

end Evaluator

end ScopeScript
