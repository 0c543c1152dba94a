import ScopeScript.Interpreter
import ScopeScript.Proofs.Vault.Contents

/-!
# Code that values keep

Functions and formulas are code that is evaluated later, wherever their value has got to by then.
What holds of all code in a program therefore has to be known of the code in values, and
`Value.Keeps` says it. Operators and conversions make no new code, and a new store holds none.
-/

namespace ScopeScript

/-- Code to be evaluated later. -/
inductive Code
  | formula (content : Formula)
  | function (content : Function)

/-- The code in a value has a property. -/
inductive Value.Keeps (P : Code → Prop) : Value → Prop
  | none : Keeps P .none
  | number (value : Float) : Keeps P (.number value)
  | bool (value : Bool) : Keeps P (.bool value)
  | text (value : String) : Keeps P (.text value)
  | sequence {items : List Value} : (∀ item ∈ items, Keeps P item) → Keeps P (.sequence items)
  | formula {content : Formula} : P (.formula content) → Keeps P (.formula content)
  | scope (handle : Handle) : Keeps P (.scope handle)
  | native (tag : Int) : Keeps P (.native tag)
  | function {content : Function} : P (.function content) → Keeps P (.function content)
  | error (message : String) : Keeps P (.error message)

attribute [simp] Value.Keeps.none Value.Keeps.number Value.Keeps.bool Value.Keeps.text
  Value.Keeps.scope Value.Keeps.native Value.Keeps.error

namespace Value.Keeps

variable {P : Code → Prop}

/-! ## Operators -/

theorem countUp {current last : Int} {value : Float} {collected items : Array Value}
    (kept : ∀ item ∈ collected, Keeps P item)
    (counted : Value.countUp current last value collected = some items) :
    ∀ item ∈ items, Keeps P item := by
  fun_induction Value.countUp current last value collected with
  | case1 current value collected inRange next grows inductionHypothesis =>
      refine inductionHypothesis ?_ counted
      intro item member
      rcases Array.mem_push.1 member with earlier | rfl
      · exact kept item earlier
      · exact .number value
  | case2 => cases counted
  | case3 =>
      cases counted
      exact kept

theorem range? {first last : Float} {value : Value}
    (ranges : Value.range? first last = some value) : value.Keeps P := by
  have empty : Keeps P (.sequence []) := .sequence (by simp)
  unfold Value.range? at ranges
  split at ranges
  case h_8 =>
    split at ranges
    · split at ranges
      · exact Option.some.inj ranges ▸ empty
      · split at ranges
        · exact Option.some.inj ranges ▸ .none
        · obtain ⟨items, counted, rfl⟩ := Option.map_eq_some_iff.1 ranges
          refine .sequence fun item member => ?_
          exact countUp (by simp) counted item (Array.mem_toList_iff.1 member)
    · exact Option.some.inj ranges ▸ .none
  all_goals first | exact Option.some.inj ranges ▸ empty | exact Option.some.inj ranges ▸ .none

theorem repeated (string : String) (number : Float) :
    (Value.repeated string number).Keeps P := by
  unfold Value.repeated
  split
  · exact .text _
  · split <;> simp

theorem add (left right : Value) : (left.add right).Keeps P := by
  unfold Value.add
  split <;> simp

theorem multiply (left right : Value) : (left.multiply right).Keeps P := by
  unfold Value.multiply
  split <;> simp [repeated]

theorem onNumbers (operation : Float → Float → Float) (left right : Value) :
    (Value.onNumbers operation left right).Keeps P := by
  unfold Value.onNumbers
  split <;> simp

theorem shift (operation : Nat → Nat → Nat) (left right : Value) :
    (Value.shift operation left right).Keeps P := by
  unfold Value.shift
  split <;> simp

theorem bitwise (onWords : BitVec 64 → BitVec 64 → BitVec 64) (onBools : Bool → Bool → Bool)
    (left right : Value) : (Value.bitwise onWords onBools left right).Keeps P := by
  unfold Value.bitwise
  split <;> simp

theorem compare (numbers : Float → Float → Bool) (texts : Ordering → Bool) (left right : Value) :
    (Value.compare numbers texts left right).Keeps P := by
  unfold Value.compare
  split <;> simp

theorem result? {operator : BinaryOperator} {left right value : Value}
    (computed : operator.result? left right = some value) : value.Keeps P := by
  unfold BinaryOperator.result? at computed
  cases operator with
  | range =>
      dsimp only at computed
      split at computed
      · exact range? computed
      · exact Option.some.inj computed ▸ .none
  | _ =>
      refine Option.some.inj computed ▸ ?_
      simp [add, multiply, onNumbers, shift, bitwise, compare]

theorem apply (operator : UnaryOperator) {value : Value} (kept : value.Keeps P) :
    (operator.apply value).Keeps P := by
  unfold UnaryOperator.apply
  split <;> simp [kept]

/-! ## Native routines -/

theorem numberOf (value : Value) : (Native.numberOf value).Keeps P := by
  unfold Native.numberOf
  split
  case h_3 => split <;> simp
  all_goals simp

theorem lengthOf (vault : Vault) (value : Value) : (Native.lengthOf vault value).Keeps P := by
  unfold Native.lengthOf
  split
  case h_3 => split <;> simp
  all_goals simp

theorem convert (native : Native) (machine : Machine) (value : Value) :
    (native.convert machine value).Keeps P := by
  unfold Native.convert
  split <;> simp [numberOf, lengthOf]

/-- The values that functions yield are collected in a sequence. -/
theorem yieldedValues {machine : Machine}
    (kept : ∀ values ∈ machine.activations, ∀ value ∈ values, Keeps P value) :
    (Evaluator.yieldedValues machine).Keeps P := by
  unfold Evaluator.yieldedValues
  split
  case h_1 value values outer active =>
    refine .sequence fun item member => ?_
    exact kept _ (active ▸ List.mem_cons_self) item (List.mem_reverse.1 member)
  case h_2 => exact .none

end Value.Keeps

/-- The innermost activation has yielded one more value. -/
theorem Evaluator.forall_yielded {Q : Value → Prop} {activations : List (List Value)}
    {value : Value} (yielded : ∀ values ∈ activations, ∀ value ∈ values, Q value)
    (holds : Q value) :
    ∀ values ∈ activations.modifyHead (value :: ·), ∀ value ∈ values, Q value := by
  cases activations with
  | nil => exact yielded
  | cons innermost outer =>
      obtain ⟨first, rest⟩ := List.forall_mem_cons.1 yielded
      exact List.forall_mem_cons.2 ⟨List.forall_mem_cons.2 ⟨holds, first⟩, rest⟩

/-! ## A new store -/

namespace Vault.Invariant

open Run.Ensures (any)

variable {I : Vault → Prop} {Q : Value → Prop}

/-- The routines bound to names are native ones. -/
theorem defineAll (invariant : Invariant I Q) (native : ∀ tag, Q (.native tag))
    (routines : List (String × Native)) : Run.Ensures I any (Native.defineAll routines) := by
  induction routines with
  | nil => exact .result trivial
  | cons routine routines inductionHypothesis =>
      exact .bind (invariant.define routine.1 (native _)) fun _ _ => inductionHypothesis

theorem injectAll (invariant : Invariant I Q) (native : ∀ tag, Q (.native tag))
    (scope : ∀ handle, Q (.scope handle)) : Run.Ensures I any Native.injectAll := by
  have define := fun routines => invariant.defineAll native routines
  have close := fun handle name => invariant.endDeclaration handle name (scope handle)
  refine .bind (invariant.declare _) fun std _ => .bind (define _) fun _ _ => ?_
  refine .bind (invariant.declare _) fun io _ => .bind (define _) fun _ _ => ?_
  refine .bind (close io _) fun _ _ => ?_
  refine .bind (invariant.declare _) fun hashmap _ => .bind (define _) fun _ _ => ?_
  refine .bind (close hashmap _) fun _ _ => .bind (close std _) fun _ _ => ?_
  refine .bind (define _) fun _ _ => .bind (define _) fun _ _ => ?_
  refine .bind (invariant.declare _) fun class_ _ => ?_
  exact .bind (invariant.define _ (native _)) fun _ _ => close class_ _

/-- What holds of the empty store holds of a new one, which binds only routines and scopes. -/
theorem freshVault (invariant : Invariant I Q) (native : ∀ tag, Q (.native tag))
    (scope : ∀ handle, Q (.scope handle)) (empty : I .empty) : I Interpreter.freshVault := by
  have ensures : Run.Ensures I any Interpreter.opening :=
    .bind (invariant.enter .block) fun _ _ => invariant.injectAll native scope
  exact (ensures .empty empty).1

end Vault.Invariant

end ScopeScript
