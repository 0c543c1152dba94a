import ScopeScript.Proofs.Evaluator.Nesting
import ScopeScript.Proofs.Interpreter.Session

/-!
# More nesting allowed

A program that comes to its own end without meeting the allowed nesting does exactly the same under
a higher limit: it has the same result or diagnostic, prints and reports the same in the same order,
and leaves the same store (`higher_limit_changes_nothing`). It needs no more fuel either, so it
comes to its end under the higher limit as well.
-/

namespace ScopeScript
namespace Interpreter

/-- The same interpreter, with another nesting allowed. -/
def allowing (interpreter : Interpreter) (limit : Nat) : Interpreter :=
  { interpreter with config := { interpreter.config with maxDepth := limit } }

/-- Execute programs one after the other, whether they succeed or fail. -/
def evalEach (fuel : Nat) (interpreter : Interpreter) :
    List Program → List (Outcome Value) × Interpreter
  | [] => ([], interpreter)
  | program :: programs =>
      let (outcome, interpreter) := interpreter.evalWithin fuel program
      let (outcomes, interpreter) := interpreter.evalEach fuel programs
      (outcome :: outcomes, interpreter)

theorem evalEach_cons (fuel : Nat) (interpreter : Interpreter) (program : Program)
    (programs : List Program) :
    interpreter.evalEach fuel (program :: programs) =
      ((interpreter.evalWithin fuel program).1 ::
          ((interpreter.evalWithin fuel program).2.evalEach fuel programs).1,
        ((interpreter.evalWithin fuel program).2.evalEach fuel programs).2) := rfl

theorem config_evalWithin (fuel : Nat) (interpreter : Interpreter) (program : Program) :
    (interpreter.evalWithin fuel program).2.config = interpreter.config := by
  unfold evalWithin
  split <;> rfl

theorem isStarted_start (interpreter : Interpreter) (path source : String) :
    (interpreter.start path source).isStarted = true := rfl

theorem allowing_start (interpreter : Interpreter) (limit : Nat) (path source : String) :
    (interpreter.allowing limit).start path source =
      (interpreter.start path source).allowing limit := rfl

theorem allowing_stop (interpreter : Interpreter) (limit : Nat) :
    (interpreter.allowing limit).stop = interpreter.stop.allowing limit := by
  unfold stop allowing
  split <;> rfl

theorem evalWithin_allowing_of_started {interpreter : Interpreter} {limit : Nat}
    (started : interpreter.isStarted = true) (allowed : interpreter.config.maxDepth ≤ limit)
    (fuel : Nat) (program : Program)
    (unhindered : (interpreter.evalWithin fuel program).1.Unhindered) :
    (interpreter.allowing limit).evalWithin fuel program =
      ((interpreter.evalWithin fuel program).1,
        (interpreter.evalWithin fuel program).2.allowing limit) := by
  have startedAllowing : (interpreter.allowing limit).isStarted = true := started
  rw [evalWithin_of_started started] at unhindered
  rw [evalWithin_of_started started, evalWithin_of_started startedAllowing]
  rw [evalProgram_apply] at unhindered
  simp only [evalProgram_apply]
  have same := evalBody_of_closed Eval.closed_tolerant fuel (interpreter.machine.parses + 1)
    program _ _ limit allowed unhindered
  simp only [Context.allowing] at same
  simp only [allowing, same]

/-- A program that is not hindered does the same if more nesting is allowed. -/
theorem evalWithin_allowing {interpreter : Interpreter} {limit : Nat}
    (allowed : interpreter.config.maxDepth ≤ limit) (fuel : Nat) (program : Program)
    (unhindered : (interpreter.evalWithin fuel program).1.Unhindered) :
    (interpreter.allowing limit).evalWithin fuel program =
      ((interpreter.evalWithin fuel program).1,
        (interpreter.evalWithin fuel program).2.allowing limit) := by
  cases started : interpreter.isStarted with
  | true => exact evalWithin_allowing_of_started started allowed fuel program unhindered
  | false =>
      have unstarted : ∀ other : Interpreter, other.isStarted = false →
          other.evalWithin fuel program = (other.start inputPath "").evalWithin fuel program := by
        intro other idle
        simp [evalWithin, idle, start]
      rw [unstarted _ started] at unhindered ⊢
      rw [unstarted (interpreter.allowing limit) started, allowing_start]
      have allowedHere : (interpreter.start inputPath "").config.maxDepth ≤ limit := allowed
      exact evalWithin_allowing_of_started (isStarted_start _ _ _) allowedHere fuel program
        unhindered

theorem evalEach_allowing {interpreter : Interpreter} {limit : Nat}
    (allowed : interpreter.config.maxDepth ≤ limit) (fuel : Nat) (programs : List Program)
    (unhindered : ∀ outcome ∈ (interpreter.evalEach fuel programs).1, outcome.Unhindered) :
    (interpreter.allowing limit).evalEach fuel programs =
      ((interpreter.evalEach fuel programs).1,
        (interpreter.evalEach fuel programs).2.allowing limit) := by
  induction programs generalizing interpreter with
  | nil => rfl
  | cons program programs inductionHypothesis =>
      rw [evalEach_cons] at unhindered
      have first := evalWithin_allowing allowed fuel program
        (unhindered _ List.mem_cons_self)
      have stillAllowed : (interpreter.evalWithin fuel program).2.config.maxDepth ≤ limit := by
        rw [config_evalWithin]
        exact allowed
      have rest := inductionHypothesis stillAllowed fun outcome member =>
        unhindered outcome (List.mem_cons_of_mem _ member)
      rw [evalEach_cons, evalEach_cons, first, rest]

theorem runWithin_allowing {interpreter : Interpreter} {limit : Nat}
    (allowed : interpreter.config.maxDepth ≤ limit) (fuel : Nat) (path source : String)
    (unhindered : (interpreter.runWithin fuel path source).1.Unhindered) :
    (interpreter.allowing limit).runWithin fuel path source =
      ((interpreter.runWithin fuel path source).1,
        (interpreter.runWithin fuel path source).2.allowing limit) := by
  unfold runWithin at unhindered ⊢
  cases parsed : Program.parse path source with
  | error diagnostic => rfl
  | ok program =>
      rw [parsed] at unhindered
      have allowedHere : (interpreter.start path source).config.maxDepth ≤ limit := allowed
      have same := evalWithin_allowing allowedHere fuel program unhindered
      simp only [allowing_start, same, allowing_stop]

/-- A higher limit on the nesting changes nothing for what does not meet the lower one. If a run
comes to its own end, and not by a diagnostic that it is nested too deeply, then under every higher
limit it comes to the same end: the outcome is the same, and so is the whole state, that is the
output, the reports in their order and the store. The same holds of programs executed one after the
other, if none of them is nested too deeply. -/
theorem higher_limit_changes_nothing (interpreter : Interpreter) (limit : Nat)
    (allowed : interpreter.config.maxDepth ≤ limit) (fuel : Nat) :
    (∀ path source, (interpreter.runWithin fuel path source).1.Returned →
      (interpreter.runWithin fuel path source).1.kind? ≠ some .depthExceeded →
      ((interpreter.allowing limit).runWithin fuel path source).1 =
          (interpreter.runWithin fuel path source).1 ∧
        ((interpreter.allowing limit).runWithin fuel path source).2.machine =
          (interpreter.runWithin fuel path source).2.machine) ∧
      ∀ programs,
        (∀ outcome ∈ (interpreter.evalEach fuel programs).1,
          outcome.Returned ∧ outcome.kind? ≠ some .depthExceeded) →
        ((interpreter.allowing limit).evalEach fuel programs).1 =
            (interpreter.evalEach fuel programs).1 ∧
          ((interpreter.allowing limit).evalEach fuel programs).2.machine =
            (interpreter.evalEach fuel programs).2.machine := by
  constructor
  · intro path source returned unlimited
    rw [runWithin_allowing allowed fuel path source ⟨returned, unlimited⟩]
    exact ⟨rfl, rfl⟩
  · intro programs unhindered
    rw [evalEach_allowing allowed fuel programs fun outcome member =>
      ⟨(unhindered outcome member).1, (unhindered outcome member).2⟩]
    exact ⟨rfl, rfl⟩

/-- The text of a program that fails at the second level: in a formula that a function reads. -/
def nestedReadText : String := "let x := y; fn f() return x; f();"

/-- One level is not enough for a formula read by a function. Two levels are, and then a thousand
make no difference; nor do they for programs that are not nested at all. -/
theorem nestedRead_unaffected :
    ((bare.allowing 1).runWithin 8 inputPath nestedReadText).1.kind? = some .depthExceeded ∧
      ((bare.allowing 2).runWithin 8 inputPath nestedReadText).1.kind? = some .unboundName ∧
      (((bare.allowing 2).allowing 1000).runWithin 8 inputPath nestedReadText).1.kind? =
        some .unboundName ∧
      (((bare.allowing 2).allowing 1000).runWithin 8 inputPath nestedReadText).2.machine =
        ((bare.allowing 2).runWithin 8 inputPath nestedReadText).2.machine ∧
      (((bare.allowing 2).allowing 1000).evalEach 8 [unknownCall, unknownCall]).2.machine =
        ((bare.allowing 2).evalEach 8 [unknownCall, unknownCall]).2.machine := by
  have failed : ((bare.allowing 2).runWithin 8 inputPath nestedReadText).1.kind? =
      some .unboundName := by decide +kernel
  have eachFailed : ((bare.allowing 2).evalEach 8 [unknownCall, unknownCall]).1.map
      Outcome.kind? = [some .unboundName, some .unboundName] := by decide +kernel
  obtain ⟨runs, sessions⟩ :=
    higher_limit_changes_nothing (bare.allowing 2) 1000 (by decide +kernel) 8
  have run := runs inputPath nestedReadText (Outcome.returned_of_kind? failed) (by simp [failed])
  have session := sessions [unknownCall, unknownCall] fun outcome member => by
    have kind := List.mem_map_of_mem member (f := Outcome.kind?)
    rw [eachFailed] at kind
    have unbound : outcome.kind? = some .unboundName := by simpa using kind
    exact ⟨Outcome.returned_of_kind? unbound, by simp [unbound]⟩
  exact ⟨by decide +kernel, failed, run.1 ▸ failed, run.2, session.2⟩

end Interpreter
end ScopeScript
