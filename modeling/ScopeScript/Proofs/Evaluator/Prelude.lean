import Mathlib.Data.List.Forall2
import ScopeScript.Evaluator.Prelude

/-!
# The declarations of the prelude

The prelude consists of one declaration for each method of maps. Each method hands its parameters
and the entries of the map on to the routine of its own name, and that is all it does. The text is
read here once (`Prelude.statements_declare`); everything else about it follows from the signatures.
-/

namespace ScopeScript

/-- The name that an expression consists of. -/
def Expr.name? : Expr → Option String
  | .name _ label => some label
  | _ => .none

/-- Whether an expression calls a routine of `std.hashmap` on the given variables. -/
def Expr.delegates (callee : String) (names : List String) : Expr → Bool
  | .method _ (.member _ object _ part) _ called _ arguments =>
      object.name? == some "std" && part == "hashmap" && called == callee &&
        arguments.map Expr.name? == names.map some
  | _ => false

/-- The name and the parameters of a method, and whether it returns what the routine answers. -/
structure Signature where
  name : String
  parameters : List String
  answers : Bool

/-- Whether a function hands its parameters and the entries on to the routine of its name. -/
def Function.delegates (signature : Signature) (function : Function) : Bool :=
  function.name == signature.name && function.parameters == signature.parameters &&
    match function.body with
    | [.returns _ (some expr)] =>
        signature.answers && expr.delegates signature.name ("entries" :: signature.parameters)
    | [.evaluate _ expr] =>
        !signature.answers && expr.delegates signature.name ("entries" :: signature.parameters)
    | _ => false

/-- The function that a statement declares. -/
def Stmt.declared? (origin : Origin) : Stmt → Option Function
  | .function span name parameters body isAsync =>
      some ⟨origin, span, name, parameters, body, isAsync⟩
  | _ => none

/-- Whether a statement declares a function. -/
def Stmt.isFunction : Stmt → Bool
  | .function _ _ _ _ _ => true
  | _ => false

namespace Prelude

/-- The methods of maps. -/
def methods : List Function :=
  statements.filterMap (Stmt.declared? origin)

/-- The signatures of the methods, in the order of their declarations. -/
def signatures : List Signature :=
  [⟨"set", ["key", "value"], false⟩, ⟨"get", ["key"], true⟩, ⟨"del", ["key"], true⟩,
    ⟨"has", ["key"], true⟩, ⟨"keys", [], true⟩, ⟨"values", [], true⟩, ⟨"clear", [], false⟩,
    ⟨"len", [], true⟩]

/-- The prelude declares a delegating method for each signature and does nothing else. -/
theorem statements_declare :
    List.Forall₂ (fun statement signature =>
      (statement.declared? origin).any (·.delegates signature) = true) statements signatures := by
  decide +kernel

theorem statements_isFunction : ∀ statement ∈ statements, statement.isFunction = true := by
  have declared := statements_declare
  generalize statements = declarations, signatures = expected at declared ⊢
  induction declared with
  | nil => simp
  | @cons statement _ _ _ declares _ inductionHypothesis =>
      refine List.forall_mem_cons.2 ⟨?_, inductionHypothesis⟩
      cases statement with
      | function => rfl
      | _ => cases declares

theorem methods_delegate :
    List.Forall₂ (fun method signature => method.delegates signature = true) methods
      signatures := by
  have declared := statements_declare
  unfold methods
  generalize statements = declarations, signatures = expected at declared ⊢
  induction declared with
  | nil => exact .nil
  | @cons statement _ _ _ declares _ inductionHypothesis =>
      cases statement with
      | function => exact .cons declares inductionHypothesis
      | _ => cases declares

theorem name_of_delegates {function : Function} {signature : Signature}
    (delegates : function.delegates signature = true) :
    function.name = signature.name ∧ function.parameters = signature.parameters := by
  simp only [Function.delegates, Bool.and_eq_true, beq_iff_eq] at delegates
  exact delegates.1

theorem names_methods : methods.map (·.name) = signatures.map (·.name) := by
  rw [← List.forall₂_eq_eq_eq, List.forall₂_map_left_iff, List.forall₂_map_right_iff]
  exact methods_delegate.imp fun _ _ delegates => (name_of_delegates delegates).1

end Prelude

theorem Expr.exists_of_name? {expr : Expr} {label : String} (isName : expr.name? = some label) :
    ∃ span, expr = .name span label := by
  cases expr with
  | name span other => exact ⟨span, congrArg _ (Option.some.inj isName)⟩
  | _ => cases isName

theorem Expr.exists_of_delegates {callee : String} {names : List String} {expr : Expr}
    (delegates : expr.delegates callee names = true) :
    ∃ span memberSpan stdSpan nameSpan callSpan argumentsSpan arguments,
      expr = .method span (.member memberSpan (.name stdSpan "std") nameSpan "hashmap") callSpan
        callee argumentsSpan arguments ∧ arguments.map Expr.name? = names.map some := by
  unfold Expr.delegates at delegates
  split at delegates
  · simp only [Bool.and_eq_true, beq_iff_eq] at delegates
    obtain ⟨⟨⟨isStd, rfl⟩, rfl⟩, arguments⟩ := delegates
    obtain ⟨stdSpan, rfl⟩ := Expr.exists_of_name? isStd
    exact ⟨_, _, stdSpan, _, _, _, _, rfl, arguments⟩
  · cases delegates

end ScopeScript
