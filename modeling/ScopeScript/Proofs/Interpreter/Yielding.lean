import ScopeScript.Proofs.Course.Evaluation
import ScopeScript.Proofs.Evaluator.Writing
import ScopeScript.Proofs.Interpreter.Lifetime

/-!
# Isolation of yielded values

What is yielded goes to the innermost activation, and each call of a function has an activation of
its own. So an expression leaves all activations as they were, however many generators it calls and
however it ends, and a statement only adds to the innermost one. A call whose body comes to its end
without returning or throwing gives the values that were yielded in its own activation, and these
are the events of the body's course (`yields_are_isolated`).
-/

namespace ScopeScript

/-- Whether control leaves a function by returning or throwing. -/
def Flow.leavesFunction : Flow → Bool
  | .result _ | .thrown _ _ => true
  | .proceed | .leaveLoop | .nextRound => false

/-- What a function gives that has yielded some values and returns nothing. -/
def Value.ofYields : List Value → Value
  | [] => .none
  | value :: values => .sequence (value :: values)

namespace Evaluator

/-- What a call does before the body of its function begins. -/
def entering (function : Function) (values : List Value) : Eval Unit := do
  let _ ← Eval.onVault Vault.enterBlock
  bindParameters function.parameters values
  Eval.update fun machine => { machine with activations := [] :: machine.activations }

theorem yieldedValues_of_activations {machine : Machine} {values : List Value}
    {outer : List (List Value)} (collected : machine.activations = values.reverse :: outer) :
    yieldedValues machine = .ofYields values := by
  unfold yieldedValues
  rw [collected]
  cases values with
  | nil => rfl
  | cons value values =>
      obtain ⟨newest, others, backwards⟩ := List.exists_cons_of_ne_nil
        (List.reverse_ne_nil_iff.2 (List.cons_ne_nil value values))
      rw [backwards]
      dsimp only
      rw [← backwards, List.reverse_reverse]
      rfl

theorem resultOfBody_of_stays {flow : Flow} (stays : flow.leavesFunction = false)
    (context : Context) (machine : Machine) :
    resultOfBody flow context machine = (.done (yieldedValues machine), machine) := by
  cases flow with
  | result value => cases stays
  | thrown value span => cases stays
  | proceed | leaveLoop | nextRound => rfl

/-- Parameters are always bound where a scope is open. -/
theorem bindParameters_of_tidy (context : Context) (names : List String) (values : List Value)
    {openings : List Opening} {machine : Machine} (tidy : machine.Tidy openings) :
    ∃ filled, bindParameters names values context machine = (.done (), filled) ∧
      filled.Tidy openings ∧ filled.activations = machine.activations := by
  induction names generalizing values machine with
  | nil => exact ⟨machine, rfl, tidy, rfl⟩
  | cons name names inductionHypothesis =>
      cases values with
      | nil => exact ⟨machine, rfl, tidy, rfl⟩
      | cons value values =>
          obtain ⟨defined, ran, forest⟩ := tidy.forest.define tidy.someOpen name value
          have tidyDefined : Machine.Tidy openings { machine with vault := defined } :=
            ⟨tidy.someOpen, forest, tidy.uncrashed⟩
          obtain ⟨filled, bound, kept⟩ := inductionHypothesis values tidyDefined
          refine ⟨filled, ?_, kept⟩
          exact (Eval.bind_of_done (Eval.onVault_eq_of_done context machine ran) _).trans bound

/-- A call whose body comes to its end gives what its activation has collected by then. -/
theorem callFunction_of_stays {recursion : Recursion} {context : Context}
    {machine opened filled ended : Machine} {function : Function} {values : List Value}
    {block : Handle} {flow : Flow} {openings : List Opening} (site : CallSite)
    (arity : values.length = function.parameters.length)
    (shallow : machine.depth < context.config.maxDepth)
    (entered : Eval.onVault Vault.enterBlock context { machine with depth := machine.depth + 1 } =
      (.done block, opened))
    (bound : bindParameters function.parameters values context opened = (.done (), filled))
    (ran : recursion.execute function.body { context with origin := function.origin }
      { filled with activations := [] :: filled.activations } = (.done flow, ended))
    (stays : flow.leavesFunction = false) (tidy : ended.Tidy (.block block :: openings)) :
    ∃ after, callFunction recursion site function values context machine =
      (.done (yieldedValues ended), after) := by
  obtain ⟨left, exited, _⟩ := Vault.Forest.leave (.inl rfl) tidy.forest
  exact ⟨_, callFunction_of_done site arity shallow entered bound ran
    (resultOfBody_of_stays stays context ended) exited⟩

end Evaluator

namespace Interpreter

open Evaluator (recursion courses entering evaluate execute executeOne callFunction)

/-- In every reachable state, evaluations that come to their own end keep yielded values apart.
Expressions leave all activations as they were. Statements add the values they yield to the
innermost activation, where the newest value stands first. A call whose body comes to its end
without returning or throwing gives the values that the body has yielded, in order, and the empty
value if there are none; this needs a number for the slot of its block, and that the numbers fit
when the body has ended. -/
theorem yields_are_isolated {openings : List Opening} {machine : Machine}
    (reachable : machine.Reachable openings) (context : Context) (fuel : Nat) :
    (∀ expr, (evaluate fuel expr context machine).1.Returned →
      (evaluate fuel expr context machine).2.activations = machine.activations) ∧
    (∀ statement, (executeOne (recursion fuel) statement context machine).1.Returned →
      (executeOne (recursion fuel) statement context machine).2.activations =
        machine.activations.modifyHead
          ((Event.yields (((courses fuel).executeOne statement).events context machine)).reverse
            ++ ·)) ∧
    ∀ site function values, values.length = function.parameters.length →
      machine.depth < context.config.maxDepth → machine.vault.Fits →
      machine.vault.live < UInt32.size →
      ∃ called, entering function values context { machine with depth := machine.depth + 1 } =
          (.done (), called) ∧ called.activations = [] :: machine.activations ∧
        ∀ flow ended, execute fuel function.body { context with origin := function.origin } called =
            (.done flow, ended) → flow.leavesFunction = false → ended.vault.Fits →
          ∃ after, callFunction (recursion fuel) site function values context machine =
            (.done (.ofYields (Event.yields (((courses fuel).execute function.body).events
              { context with origin := function.origin } called))), after) := by
  refine ⟨fun expr returned => ?_, fun statement returned => ?_, ?_⟩
  · exact ((Eval.closed_balances.recursion fuel).evaluate expr context machine returned).activations
  · exact ((courses fuel).executeOne statement).collects context machine returned
  · intro site function values arity shallow fits room
    have tidy := reachable.tidy fits
    obtain ⟨block, grown, ran, forest⟩ := tidy.forest.enter (.inl rfl)
    obtain ⟨_, _, record, frames, found⟩ := tidy.forest.exists_current tidy.someOpen
    have live := congrArg (Option.map Record.table) found
    obtain ⟨_, _, ran', opens⟩ :=
      Vault.enterBlock_opens ⟨tidy.forest.consistent, fits⟩ room frames live
    cases ran.symm.trans ran'
    have entered := Eval.onVault_eq_of_done context { machine with depth := machine.depth + 1 } ran
    have tidyOpened : Machine.Tidy (.block block :: openings)
        { machine with depth := machine.depth + 1, vault := grown } :=
      ⟨List.cons_ne_nil _ _, forest opens.sound.fits, tidy.uncrashed⟩
    obtain ⟨filled, bound, tidyFilled, same⟩ :=
      Evaluator.bindParameters_of_tidy context function.parameters values tidyOpened
    let called : Machine := { filled with activations := [] :: filled.activations }
    refine ⟨called, (Eval.bind_of_done entered _).trans (Eval.bind_of_done bound _), ?_, ?_⟩
    · exact congrArg (List.cons []) same
    intro flow ended ran stays fitsEnded
    have tidyCalled : called.Tidy (.block block :: openings) :=
      ⟨tidyFilled.someOpen, tidyFilled.forest, tidyFilled.uncrashed⟩
    have ends := ((Eval.closed_orderly.recursion fuel).execute function.body).ends
      { context with origin := function.origin } called _ tidyCalled
    have collects := ((courses fuel).execute function.body).collects
      { context with origin := function.origin } called
    change (recursion fuel).execute function.body _ called = _ at ran
    rw [ran] at ends collects
    have collected := (collects (.done _)).activations_of_nil rfl
    rw [← Evaluator.yieldedValues_of_activations collected]
    exact Evaluator.callFunction_of_stays site arity shallow entered bound ran stays
      (ends fitsEnded)

/-- A generator that calls another one between two values of its own. -/
def interleaved : Function :=
  ⟨0, .null, "outer", [],
    [.function .null "inner" [] [.yields .null (some (.text .null "b"))] false,
      .yields .null (some (.text .null "a")),
      .evaluate .null (.call .null "inner" .null []),
      .yields .null (some (.text .null "c"))], false⟩

/-- The texts that a sequence consists of. -/
def texts? : Value → Option (List String)
  | .sequence items => items.mapM fun
      | .text text => some text
      | _ => none
  | _ => none

/-- Whether statements have come to their end. -/
def isAtEnd : Outcome Flow → Bool
  | .done flow => !flow.leavesFunction
  | _ => false

theorem exists_flow_of_isAtEnd {outcome : Outcome Flow} (atEnd : isAtEnd outcome = true) :
    ∃ flow, outcome = .done flow ∧ flow.leavesFunction = false := by
  cases outcome with
  | done flow => exact ⟨flow, rfl, by simpa [isAtEnd] using atEnd⟩
  | _ => cases atEnd

/-- The values of a generator do not mix with those of a generator that it calls. -/
theorem interleaved_yields_own_values :
    ∃ value after, callFunction (recursion 5) ⟨.null, "outer"⟩ interleaved [] ⟨bare.config, 0⟩
        (bare.start inputPath "").machine = (.done value, after) ∧
      texts? value = some ["a", "c"] := by
  have reachable : (bare.start inputPath "").machine.Reachable [.block globalFrame.record] :=
    .session (.start bare inputPath "")
  obtain ⟨called, entered, _, gives⟩ := (yields_are_isolated reachable ⟨bare.config, 0⟩ 5).2.2
    ⟨.null, "outer"⟩ interleaved [] rfl (by decide +kernel) (by decide +kernel) (by decide +kernel)
  have same : _ = called := congrArg Prod.snd entered
  have atEnd : isAtEnd (execute 5 interleaved.body ⟨bare.config, 0⟩ called).1 = true := by
    rw [← same]
    decide +kernel
  have fits : (execute 5 interleaved.body ⟨bare.config, 0⟩ called).2.vault.Fits := by
    rw [← same]
    decide +kernel
  obtain ⟨flow, isDone, stays⟩ := exists_flow_of_isAtEnd atEnd
  obtain ⟨after, gave⟩ := gives flow (execute 5 interleaved.body ⟨bare.config, 0⟩ called).2
    (Prod.ext isDone rfl) stays fits
  refine ⟨_, after, gave, ?_⟩
  rw [← same]
  decide +kernel

end Interpreter
end ScopeScript
