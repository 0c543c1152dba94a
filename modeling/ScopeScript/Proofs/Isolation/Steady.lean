import ScopeScript.Proofs.Evaluator.Keeping
import ScopeScript.Proofs.Evaluator.Prelude

/-!
# Code without assignments

Code is steady if it contains neither an assignment nor a `delete`, in function bodies or elsewhere.
A value is steady if the functions and formulas in it are, and a state of an evaluation is steady if
its values are. What steady code declares is steady again, so it is enough to look at the program
and at the files it can import.
-/

namespace ScopeScript

namespace Expr

mutual

/-- Whether an expression contains no `delete`. -/
def isSteady : Expr → Bool
  | number _ _ | text _ _ | bool _ _ | none _ | absent _ | name _ _ => true
  | binary _ left _ right => left.isSteady && right.isSteady
  | unary _ _ operand | await _ operand => operand.isSteady
  | conditional _ test consequent alternate =>
      test.isSteady && consequent.isSteady && alternate.isSteady
  | sequence _ items => areSteady items
  | call _ _ _ arguments | construct _ _ _ _ arguments => areSteady arguments
  | member _ object _ _ => object.isSteady
  | method _ object _ _ _ arguments => object.isSteady && areSteady arguments
  | index _ object key => object.isSteady && key.isSteady
  | delete _ _ _ => false

/-- Whether some expressions contain no `delete`. -/
def areSteady : List Expr → Bool
  | [] => true
  | expr :: rest => expr.isSteady && areSteady rest

end

/-- Whether an expression contains no `delete`, if there is one. -/
def isSteady? : Option Expr → Bool
  | .none => true
  | some expr => expr.isSteady

end Expr

namespace Stmt

mutual

/-- Whether a statement contains neither an assignment nor a `delete`. -/
def isSteady : Stmt → Bool
  | evaluate _ expr | throws _ expr | declare _ _ expr _ => expr.isSteady
  | returns _ argument | yields _ argument => Expr.isSteady? argument
  | function _ _ _ body _ | scope _ _ body | context _ _ body | loop _ _ body | block _ body =>
      areSteady body
  | conditional _ test _ consequent alternate =>
      test.isSteady && areSteady consequent && isSteady? alternate
  | forEach _ _ iterable _ body => iterable.isSteady && areSteady body
  | whileLoop _ test _ body => test.isSteady && areSteady body
  | attempt _ _ body _ _ handler => areSteady body && areSteady handler
  | assign _ _ _ _ => false
  | breaks _ | continues _ | imports _ _ _ => true

/-- Whether some statements contain neither an assignment nor a `delete`. -/
def areSteady : List Stmt → Bool
  | [] => true
  | statement :: rest => statement.isSteady && areSteady rest

/-- Whether a statement contains neither an assignment nor a `delete`, if there is one. -/
def isSteady? : Option Stmt → Bool
  | none => true
  | some statement => statement.isSteady

end

end Stmt

/-- A program contains neither an assignment nor a `delete`. -/
def Program.Steady (program : Program) : Prop :=
  Stmt.areSteady program.body = true

/-- Every file that can be imported is steady, as far as it is a program. -/
def Config.Steady (config : Config) : Prop :=
  ∀ path text program, config.files path = .ok text → Program.parse path text = .ok program →
    program.Steady

/-- Code to be evaluated later is steady. -/
def Code.Steady : Code → Prop
  | .formula content => content.expr.isSteady = true
  | .function content => Stmt.areSteady content.body = true

/-- The code in a value is steady. -/
abbrev Value.Steady (value : Value) : Prop :=
  value.Keeps Code.Steady

/-- The value that control is transferred with is steady. -/
inductive Flow.Steady : Flow → Prop
  | proceed : Steady .proceed
  | leaveLoop : Steady .leaveLoop
  | nextRound : Steady .nextRound
  | result {value : Value} : value.Steady → Steady (.result value)
  | thrown {value : Value} (span : Span) : value.Steady → Steady (.thrown value span)

/-- The values in a state are steady: those in the store and those that functions have yielded. -/
structure Machine.Steady (machine : Machine) : Prop where
  stored : machine.vault.Holds Value.Steady
  yielded : ∀ values ∈ machine.activations, ∀ value ∈ values, value.Steady

/-! ## The prelude -/

theorem Expr.areSteady_of_names {exprs : List Expr} {names : List String}
    (areNames : exprs.map Expr.name? = names.map some) : Expr.areSteady exprs = true := by
  induction exprs generalizing names with
  | nil => rfl
  | cons expr exprs inductionHypothesis =>
      cases names with
      | nil => cases areNames
      | cons name names =>
          obtain ⟨isName, rest⟩ := List.cons_eq_cons.1 areNames
          obtain ⟨span, rfl⟩ := Expr.exists_of_name? isName
          exact inductionHypothesis rest

theorem Expr.isSteady_of_delegates {callee : String} {names : List String} {expr : Expr}
    (delegates : expr.delegates callee names = true) : expr.isSteady = true := by
  obtain ⟨_, _, _, _, _, _, arguments, rfl, areNames⟩ := Expr.exists_of_delegates delegates
  exact Expr.areSteady_of_names areNames

/-- A function that only hands its parameters on is steady. -/
theorem Function.areSteady_of_delegates {signature : Signature} {function : Function}
    (delegates : function.delegates signature = true) :
    Stmt.areSteady function.body = true := by
  simp only [Function.delegates, Bool.and_eq_true] at delegates
  obtain ⟨_, body⟩ := delegates
  split at body
  case h_1 isBody =>
    rw [isBody]
    simpa [Stmt.areSteady, Stmt.isSteady, Expr.isSteady?] using
      Expr.isSteady_of_delegates ((Bool.and_eq_true _ _).mp body).2
  case h_2 isBody =>
    rw [isBody]
    simpa [Stmt.areSteady, Stmt.isSteady] using
      Expr.isSteady_of_delegates ((Bool.and_eq_true _ _).mp body).2
  case h_3 => cases body

/-- The methods of maps are steady. -/
theorem Prelude.areSteady_statements : Stmt.areSteady statements = true := by
  have declared := statements_declare
  generalize statements = declarations, signatures = expected at declared ⊢
  induction declared with
  | nil => rfl
  | @cons statement _ _ _ declares _ inductionHypothesis =>
      refine (Bool.and_eq_true _ _).mpr ⟨?_, inductionHypothesis⟩
      cases statement with
      | function => exact Function.areSteady_of_delegates declares
      | _ => cases declares

/-- A new store binds only routines and scopes. -/
theorem Interpreter.steady_freshVault : Interpreter.freshVault.Holds Value.Steady :=
  (Vault.invariant_holds Value.Steady).freshVault (fun tag => .native tag)
    (fun handle => .scope handle) (by simp [Vault.Holds, Vault.recordAt, Vault.empty])

end ScopeScript
