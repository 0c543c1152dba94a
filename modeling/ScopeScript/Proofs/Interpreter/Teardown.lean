import ScopeScript.Proofs.Interpreter.Session

/-!
# Complete teardown

The rules by which scopes are entered and left are never broken: not when the global scope is
filled, not by a program, and not when everything is left at the end. The one crash that programs
can provoke is a binding without a name, so where none is attempted there is none at all. Once a
program has been run, or a session stopped, no frame is left and no record is live
(`teardown_is_complete`).
-/

namespace ScopeScript

/-- Nothing is active and nothing is live. -/
structure Vault.TornDown (vault : Vault) : Prop where
  depth : vault.depth = 0
  live : vault.live = 0
  stale : ∀ handle, vault.isLive handle = false

namespace Vault.Forest

variable {vault : Vault}

theorem tornDown (forest : vault.Forest []) : vault.TornDown where
  depth := by rw [Vault.depth, forest.frames]; rfl
  live := forest.live_eq_zero_of_nil
  stale := forest.not_isLive_of_nil

/-- Dropping a block is leaving it. -/
theorem dropFrame {scope : Handle} {openings : List Opening}
    (forest : vault.Forest (.block scope :: openings)) :
    ∃ after, Vault.dropFrame vault = (.done (), after) ∧ after.Forest openings := by
  obtain ⟨after, left, kept⟩ := Forest.leave (.inl rfl) forest
  refine ⟨after, Eq.trans ?_ left, kept⟩
  have frames : vault.frames = ⟨.block, scope⟩ :: openings.map Opening.frame := forest.frames
  rw [leave_of_cons frames, Vault.dropFrame, Run.bind_of_done (pop_of_cons frames)]
  rfl

/-- If only a block is open, leaving all frames frees everything. -/
theorem unwind {scope : Handle} (forest : vault.Forest [.block scope]) :
    ∃ after, Vault.unwind 0 vault = (.done (), after) ∧ after.TornDown := by
  obtain ⟨after, dropped, kept⟩ := forest.dropFrame
  have deep : vault.depth = 1 := by rw [Vault.depth, forest.frames]; rfl
  have flat : after.depth = 0 := kept.tornDown.depth
  refine ⟨after, ?_, kept.tornDown⟩
  simp [Vault.unwind, Vault.unwindWithin, Run.bind_apply, deep, dropped, flat]

end Vault.Forest

/-- A crash of a computation that began tidy goes back to a binding without a name. -/
theorem Machine.Ends.rootCause? {machine : Machine} {openings : List Opening}
    {outcome : Outcome α} (ends : machine.Ends openings outcome) :
    machine.rootCause? outcome = none ∨
      machine.rootCause? outcome = some .namelessBinding := by
  cases outcome with
  | done value => exact .inl ends.uncrashed
  | failed diagnostic => exact .inl ends.uncrashed
  | crashed crash =>
      right
      change machine.firstCrash?.getD crash = .namelessBinding at ends
      cases first : machine.firstCrash? with
      | none => simpa [Machine.rootCause?, first] using ends
      | some earlier => simpa [Machine.rootCause?, first] using ends
  | endless =>
      change machine.firstCrash?.getD .namelessBinding = .namelessBinding at ends
      cases first : machine.firstCrash? with
      | none => exact .inl first
      | some earlier =>
          right
          simpa [Machine.rootCause?, first] using ends

namespace Interpreter

/-- The crash by which the execution of a program left its course, if it did. -/
def cause? (ran : Outcome Value × Interpreter) : Option Crash :=
  ran.2.machine.rootCause? ran.1

theorem AtRest.cause? {interpreter : Interpreter} (rest : interpreter.AtRest) (fuel : Nat)
    (program : Program) (fits : (interpreter.evalWithin fuel program).2.machine.vault.Fits)
    (named : Interpreter.cause? (interpreter.evalWithin fuel program) ≠ some .namelessBinding) :
    Interpreter.cause? (interpreter.evalWithin fuel program) = none := by
  obtain ⟨scope, ends⟩ := rest.ends fuel program fits
  exact ends.rootCause?.resolve_right named

theorem AtRest.unwind {interpreter : Interpreter} (rest : interpreter.AtRest)
    (fits : interpreter.machine.vault.Fits) :
    (Vault.unwind 0 interpreter.machine.vault).1 = .done () ∧
      interpreter.stop.machine.vault.TornDown := by
  obtain ⟨scope, tidy⟩ := rest.tidy fits
  obtain ⟨after, unwound, tornDown⟩ := tidy.forest.unwind
  rw [stop, if_pos rest.started]
  exact ⟨by rw [unwound], by simpa only [unwound] using tornDown⟩

/-- A run is the only program of a session, which is then stopped. -/
theorem runWithin_of_parse {path source : String} {program : Program}
    (parsed : Program.parse path source = .ok program) (interpreter : Interpreter) (fuel : Nat) :
    interpreter.runWithin fuel path source =
      (((interpreter.start path source).evalWithin fuel program).1,
        ((interpreter.start path source).evalWithin fuel program).2.stop) := by
  rw [runWithin, parsed]

theorem cause?_stop (outcome : Outcome Value) (interpreter : Interpreter) :
    cause? (outcome, interpreter.stop) = cause? (outcome, interpreter) := by
  have sameCrash : interpreter.stop.machine.firstCrash? = interpreter.machine.firstCrash? := by
    unfold stop
    split <;> rfl
  unfold cause?
  cases outcome <;> simp only [Machine.rootCause?, sameCrash]

/-- The end of a session gives no slots back. -/
theorem widens_stop (interpreter : Interpreter) :
    interpreter.machine.vault.Widens interpreter.stop.machine.vault := by
  unfold stop
  split
  · exact Vault.widens_unwind 0 _
  · exact .refl _

/-- As long as the slots have fitting numbers, no rule of the scope store is ever broken, and
everything is torn down at the end. Filling the global scope does not crash. In a session a program
either attempts a binding without a name, or nothing crashes in it; the end of the session does not
crash, and then no frame is left, no record is counted or live, and every handle is stale. The same
holds of a single run, with whatever nesting allowed, files and fuel, once it has come to its own
end. -/
theorem teardown_is_complete :
    opening .empty = (.done (), freshVault) ∧
      (∀ interpreter : Interpreter, interpreter.InSession → interpreter.machine.vault.Fits →
        (∀ fuel program, (interpreter.evalWithin fuel program).2.machine.vault.Fits →
          cause? (interpreter.evalWithin fuel program) ≠ some .namelessBinding →
            cause? (interpreter.evalWithin fuel program) = none) ∧
        (Vault.unwind 0 interpreter.machine.vault).1 = .done () ∧
        interpreter.stop.machine.vault.TornDown) ∧
      ∀ (interpreter : Interpreter) (fuel : Nat) (path source : String) (program : Program),
        Program.parse path source = .ok program →
        (interpreter.runWithin fuel path source).2.machine.vault.Fits →
        cause? (interpreter.runWithin fuel path source) ≠ some .namelessBinding →
          cause? (interpreter.runWithin fuel path source) = none ∧
          ((interpreter.runWithin fuel path source).1.Returned →
            (Vault.unwind 0
              ((interpreter.start path source).evalWithin fuel program).2.machine.vault).1 =
                .done () ∧
            (interpreter.runWithin fuel path source).2.machine.vault.TornDown) := by
  refine ⟨opening_forest.1, fun interpreter session fits => ?_, ?_⟩
  · have rest := session.atRest
    exact ⟨rest.cause?, rest.unwind fits⟩
  · intro interpreter fuel path source program parsed fits named
    have rest := AtRest.start interpreter path source
    rw [runWithin_of_parse parsed] at fits
    rw [runWithin_of_parse parsed, cause?_stop] at named ⊢
    have fitsRun := (widens_stop _).fits fits
    refine ⟨rest.cause? fuel program fitsRun named, fun returned => ?_⟩
    exact (rest.eval fuel program returned).unwind fitsRun

/-- The text of a program that fails in the middle of a declaration. -/
def unknownCallText : String := "\x7b scope A \x7b g(); \x7d \x7d"

/-- After a run that fails in the middle of a declaration nothing is left. -/
theorem unknownCall_is_torn_down :
    (bare.runWithin 5 inputPath unknownCallText).1.kind? = some .unboundName ∧
      (bare.runWithin 5 inputPath unknownCallText).2.machine.vault.TornDown ∧
      (bare.start inputPath "").stop.machine.vault.TornDown := by
  have failed : (bare.runWithin 5 inputPath unknownCallText).1.kind? = some .unboundName := by
    decide +kernel
  have named : cause? (bare.runWithin 5 inputPath unknownCallText) ≠ some .namelessBinding := by
    decide +kernel
  have fits : (bare.runWithin 5 inputPath unknownCallText).2.machine.vault.Fits := by
    decide +kernel
  obtain ⟨_, sessions, runs⟩ := teardown_is_complete
  have stopped := (sessions _ (.start bare inputPath "") (by decide +kernel)).2.2
  cases parsed : Program.parse inputPath unknownCallText with
  | error diagnostic =>
      have accepted : (Program.parse inputPath unknownCallText).isOk = true := by decide +kernel
      rw [parsed] at accepted
      cases accepted
  | ok program =>
      have run := runs bare 5 inputPath unknownCallText program parsed fits named
      exact ⟨failed, (run.2 (Outcome.returned_of_kind? failed)).2, stopped⟩

end Interpreter
end ScopeScript
