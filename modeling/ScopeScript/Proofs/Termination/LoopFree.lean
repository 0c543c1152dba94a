import ScopeScript.Evaluator.Statement
import ScopeScript.Proofs.Evaluator.Keeping
import ScopeScript.Proofs.Evaluator.Prelude

/-!
# Programs without loops

A program is free of loops if neither `while` nor `loop` occurs in it, in function bodies or
elsewhere. A value is free of loops if the functions in it are: expressions hold no statements, so
formulas are harmless.
-/

namespace ScopeScript

namespace Stmt

mutual

/-- Whether neither `while` nor `loop` occurs in a statement. -/
def isLoopFree : Stmt → Bool
  | whileLoop _ _ _ _ | loop _ _ _ => false
  | function _ _ _ body _ | scope _ _ body | context _ _ body | block _ body
  | forEach _ _ _ _ body => areLoopFree body
  | conditional _ _ _ consequent alternate => areLoopFree consequent && isLoopFree? alternate
  | attempt _ _ body _ _ handler => areLoopFree body && areLoopFree handler
  | evaluate _ _ | returns _ _ | yields _ _ | throws _ _ | breaks _ | continues _
  | declare _ _ _ _ | assign _ _ _ _ | imports _ _ _ => true

/-- Whether neither `while` nor `loop` occurs in some statements. -/
def areLoopFree : List Stmt → Bool
  | [] => true
  | statement :: rest => statement.isLoopFree && areLoopFree rest

/-- Whether neither `while` nor `loop` occurs in a statement, if there is one. -/
def isLoopFree? : Option Stmt → Bool
  | none => true
  | some statement => statement.isLoopFree

end

end Stmt

/-- Neither `while` nor `loop` occurs in a program. -/
def Program.LoopFree (program : Program) : Prop :=
  Stmt.areLoopFree program.body = true

/-- Every file that can be imported is free of loops, as far as it is a program. -/
def Config.LoopFree (config : Config) : Prop :=
  ∀ path text program, config.files path = .ok text → Program.parse path text = .ok program →
    program.LoopFree

/-- The functions in a value are free of loops. -/
inductive Value.LoopFree : Value → Prop
  | none : LoopFree .none
  | number (value : Float) : LoopFree (.number value)
  | bool (value : Bool) : LoopFree (.bool value)
  | text (value : String) : LoopFree (.text value)
  | sequence {items : List Value} : (∀ item ∈ items, LoopFree item) → LoopFree (.sequence items)
  | formula (content : Formula) : LoopFree (.formula content)
  | scope (handle : Handle) : LoopFree (.scope handle)
  | native (tag : Int) : LoopFree (.native tag)
  | function {content : Function} :
      Stmt.areLoopFree content.body = true → LoopFree (.function content)
  | error (message : String) : LoopFree (.error message)

/-- The value that control is transferred with is free of loops. -/
inductive Flow.LoopFree : Flow → Prop
  | proceed : LoopFree .proceed
  | leaveLoop : LoopFree .leaveLoop
  | nextRound : LoopFree .nextRound
  | result {value : Value} : value.LoopFree → LoopFree (.result value)
  | thrown {value : Value} (span : Span) : value.LoopFree → LoopFree (.thrown value span)

attribute [simp] Value.LoopFree.none Value.LoopFree.number Value.LoopFree.bool
  Value.LoopFree.text Value.LoopFree.formula Value.LoopFree.scope Value.LoopFree.native
  Value.LoopFree.error

/-- Code is free of loops, if it is a function. -/
def Code.LoopFree : Code → Prop
  | .formula _ => True
  | .function content => Stmt.areLoopFree content.body = true

theorem Value.loopFree_iff {value : Value} : value.LoopFree ↔ value.Keeps Code.LoopFree := by
  constructor
  · intro free
    induction free with
    | sequence _ inductionHypothesis => exact .sequence inductionHypothesis
    | formula content => exact .formula trivial
    | function freeBody => exact .function freeBody
    | _ => simp
  · intro kept
    induction kept with
    | sequence _ inductionHypothesis => exact .sequence inductionHypothesis
    | formula => exact .formula _
    | function freeBody => exact .function freeBody
    | _ => simp

namespace Value.LoopFree

theorem result? {operator : BinaryOperator} {left right value : Value}
    (computed : operator.result? left right = some value) : value.LoopFree :=
  loopFree_iff.2 (.result? computed)

theorem apply (operator : UnaryOperator) {value : Value} (free : value.LoopFree) :
    (operator.apply value).LoopFree :=
  loopFree_iff.2 (.apply operator (loopFree_iff.1 free))

theorem convert (native : Native) (machine : Machine) (value : Value) :
    (native.convert machine value).LoopFree :=
  loopFree_iff.2 (.convert native machine value)

/-- The values that functions yield are collected in a sequence. -/
theorem yieldedValues {machine : Machine}
    (free : ∀ values ∈ machine.activations, ∀ value ∈ values, LoopFree value) :
    (Evaluator.yieldedValues machine).LoopFree :=
  loopFree_iff.2 (.yieldedValues fun values active value member =>
    loopFree_iff.1 (free values active value member))

end Value.LoopFree

/-- A function that only hands its parameters on is free of loops. -/
theorem Function.areLoopFree_of_delegates {signature : Signature} {function : Function}
    (delegates : function.delegates signature = true) :
    Stmt.areLoopFree function.body = true := by
  simp only [Function.delegates, Bool.and_eq_true] at delegates
  obtain ⟨_, body⟩ := delegates
  split at body
  case h_1 isBody => rw [isBody]; rfl
  case h_2 isBody => rw [isBody]; rfl
  case h_3 => cases body

/-- The methods of maps are free of loops. -/
theorem Prelude.areLoopFree_statements : Stmt.areLoopFree statements = true := by
  have declared := statements_declare
  generalize statements = declarations, signatures = expected at declared ⊢
  induction declared with
  | nil => rfl
  | @cons statement _ _ _ declares _ inductionHypothesis =>
      refine (Bool.and_eq_true _ _).mpr ⟨?_, inductionHypothesis⟩
      cases statement with
      | function => exact Function.areLoopFree_of_delegates declares
      | _ => cases declares

end ScopeScript
