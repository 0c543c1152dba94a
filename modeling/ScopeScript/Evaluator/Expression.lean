import ScopeScript.Evaluator.Call

/-!
# Evaluating expressions

Operands are evaluated from left to right, also those of `and`, `or` and `xor`; only the
conditional leaves one of its branches out. Arguments and keys are evaluated before the scope of
the object is entered.
-/

namespace ScopeScript
namespace Evaluator

/-- Evaluate an expression. -/
def evaluateStep (recursion : Recursion) : Expr → Eval Value
  | .number _ value => return .number value
  | .text _ value => return .text value
  | .bool _ value => return .bool value
  | .none _ => return .none
  | .absent _ => return .none
  | .name span name => lookup recursion span name
  | .binary _ left operator right => do
      let leftValue ← recursion.evaluate left
      let rightValue ← recursion.evaluate right
      applyBinary operator leftValue rightValue
  | .unary _ operator operand => do
      return operator.apply (← recursion.evaluate operand)
  | .conditional _ test consequent alternate => do
      if (← recursion.evaluate test).isTrue then
        recursion.evaluate consequent
      else
        recursion.evaluate alternate
  | .sequence _ items => do
      return .sequence (← evaluateAll recursion items)
  | .call span callee _ arguments => do
      let values ← evaluateAll recursion arguments
      callByName recursion ⟨span, callee⟩ values
  | .member span object _ name => do
      let value ← recursion.evaluate object
      property recursion span value name
  | .method span object callSpan callee _ arguments => do
      let value ← recursion.evaluate object
      let values ← evaluateAll recursion arguments
      callMember recursion span value ⟨callSpan, callee⟩ values
  | .index span object key => do
      let value ← recursion.evaluate object
      let keyValue ← recursion.evaluate key
      elementAt recursion span object.span value keyValue
  | .await _ operand => recursion.evaluate operand
  | .delete _ nameSpan name => do
      if ← Eval.onVault (Vault.unbind name) then
        return .none
      else
        Eval.failAt nameSpan .unboundName (Vault.unboundName name).message
  | .construct _ callSpan callee _ arguments => do
      let values ← evaluateAll recursion arguments
      let target ← lookup recursion callSpan callee
      callMember recursion callSpan target ⟨callSpan, "new"⟩ values

end Evaluator
end ScopeScript
