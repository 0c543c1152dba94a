import ScopeScript.Evaluator.Call

/-!
# Assignments

An assignment to a name finds its cell first, then computes the value and writes it to that cell.
An assignment to a member writes to the scope itself. An assignment to an element replaces the
sequence bound to a name by a changed copy of the sequence that was read at the beginning.
-/

namespace ScopeScript
namespace Evaluator

/-- The value to assign. The current value is asked for only by compound operators, after the
right side has been evaluated. -/
def newValue (recursion : Recursion) (operator : AssignOperator) (right : Expr)
    (current : Eval Value) : Eval Value := do
  match operator with
  | .formula => return .formula ⟨← Eval.origin, right⟩
  | _ =>
      let rightValue ← recursion.evaluate right
      match operator.binary? with
      | none => return rightValue
      | some binary => applyBinary binary (← current) rightValue

/-- Assign to a name. -/
def assignName (recursion : Recursion) (span : Span) (name : String) (operator : AssignOperator)
    (right : Expr) : Eval Unit := do
  let (reference, _) ← Eval.onVaultAt span (Vault.resolve name)
  let value ← newValue recursion operator right do
    dereference recursion span ((← Eval.machine).vault.read reference)
  Eval.onVault (Vault.write reference value)

/-- Assign to a binding of a scope. -/
def assignBinding (recursion : Recursion) (span : Span) (handle : Handle) (name : String)
    (operator : AssignOperator) (right : Expr) : Eval Unit := do
  let value ← newValue recursion operator right do
    match ← Eval.queryAt span (·.lookup handle name) with
    | none => return .none
    | some _ => property recursion span (.scope handle) name
  Eval.onVaultAt span (Vault.defineIn handle name value)

/-- Assign to an element of a sequence, which has to be bound to a name. -/
def assignElement (recursion : Recursion) (target object : Expr) (items : List Value)
    (key : Value) (operator : AssignOperator) (right : Expr) : Eval Unit := do
  match object, position? key items.length with
  | .name nameSpan name, some index =>
      let value ← newValue recursion operator right (return (items[index]?).getD .none)
      let (reference, _) ← Eval.onVaultAt nameSpan (Vault.resolve name)
      Eval.onVault (Vault.write reference (.sequence (items.set index value)))
  | _, _ => Eval.failAt target.span .notScope ("cannot assign to " ++ target.render)

/-- Execute an assignment. -/
def assign (recursion : Recursion) (target : Expr) (operator : AssignOperator) (right : Expr) :
    Eval Unit :=
  match target with
  | .name span name => assignName recursion span name operator right
  | .member span object _ name => do
      match ← recursion.evaluate object with
      | .scope handle => assignBinding recursion span handle name operator right
      | other => Eval.failAt object.span .notScope (other.kind ++ " is not a scope")
  | .index span object key => do
      let objectValue ← recursion.evaluate object
      let keyValue ← recursion.evaluate key
      match objectValue with
      | .scope handle => assignBinding recursion span handle keyValue.toText operator right
      | .sequence items => assignElement recursion target object items keyValue operator right
      | other => Eval.failAt object.span .notScope (other.kind ++ " is not a scope")
  | .method _ object callSpan callee argumentsSpan arguments => do
      let _ ← recursion.evaluate object
      Eval.failAt callSpan .grammar
        ("cannot assign to " ++ (Expr.call callSpan callee argumentsSpan arguments).render)
  | other => Eval.failAt other.span .grammar ("cannot assign to " ++ other.render)

end Evaluator
end ScopeScript
