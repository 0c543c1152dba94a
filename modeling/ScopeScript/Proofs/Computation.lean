import Mathlib.Logic.Relation
import ScopeScript.Machine

/-!
# Laws of computations

What a computation with a state does when it is run. Sequencing is a case distinction on how the
first part ends, and the remaining laws run the basic computations.

`Run.Steps` says what a computation can do to the state, whether it gives a result or not, as steps
of a relation. It is closed under sequencing, so it is shown by following the text of a
computation. `Unfailing` computations never end with a diagnostic; what is done at the end of a body
has to be of this kind, for otherwise a diagnostic could stand in for a crash of the body.
-/

namespace ScopeScript

namespace Outcome

/-- A computation has come to its own end, with a result or with a diagnostic. -/
inductive Returned : Outcome α → Prop
  | done (value : α) : Returned (.done value)
  | failed (diagnostic : Diagnostic) : Returned (.failed diagnostic)

/-- What has returned has not run out of fuel. -/
theorem Returned.ne_endless {outcome : Outcome α} (returned : outcome.Returned) :
    outcome ≠ .endless := by
  rintro rfl
  cases returned

/-- The kind of the diagnostic that a computation has ended with. -/
def kind? : Outcome α → Option DiagnosticKind
  | .failed diagnostic => some diagnostic.kind
  | _ => none

/-- A diagnostic is an end of its own. -/
theorem returned_of_kind? {outcome : Outcome α} {kind : DiagnosticKind}
    (failed : outcome.kind? = some kind) : outcome.Returned := by
  cases outcome with
  | failed diagnostic => exact .failed diagnostic
  | _ => cases failed

end Outcome

namespace Run

variable {σ α β : Type}

/-- What follows a result goes on in the state that was left; everything else ends the whole. -/
theorem bind_apply (first : Run σ α) (next : α → Run σ β) (state : σ) :
    (first >>= next) state =
      match first state with
      | (.done value, state) => next value state
      | (.failed diagnostic, state) => (.failed diagnostic, state)
      | (.crashed crash, state) => (.crashed crash, state)
      | (.endless, state) => (.endless, state) := rfl

/-- The rest of a computation goes on from the result of its first part. -/
theorem bind_of_done {first : Run σ α} {state after : σ} {value : α}
    (ended : first state = (.done value, after)) (next : α → Run σ β) :
    (first >>= next) state = next value after := by
  rw [bind_apply, ended]

@[simp] theorem pure_apply (value : α) (state : σ) :
    (pure value : Run σ α) state = (.done value, state) := rfl

@[simp] theorem state_apply (current : σ) : Run.state current = (.done current, current) := rfl

@[simp] theorem update_apply (change : σ → σ) (state : σ) :
    Run.update change state = (.done (), change state) := rfl

@[simp] theorem fail_apply (diagnostic : Diagnostic) (state : σ) :
    (Run.fail diagnostic : Run σ α) state = (.failed diagnostic, state) := rfl

@[simp] theorem crash_apply (crash : Crash) (state : σ) :
    (Run.crash crash : Run σ α) state = (.crashed crash, state) := rfl

@[simp] theorem orCrash_ok (value : α) (state : σ) :
    Run.orCrash (.ok value) state = (.done value, state) := rfl

@[simp] theorem orCrash_error (crash : Crash) (state : σ) :
    (Run.orCrash (.error crash) : Run σ α) state = (.crashed crash, state) := rfl

@[simp] theorem orFail_ok (value : α) (state : σ) :
    Run.orFail (.ok value) state = (.done value, state) := rfl

@[simp] theorem orFail_error (diagnostic : Diagnostic) (state : σ) :
    (Run.orFail (.error diagnostic) : Run σ α) state = (.failed diagnostic, state) := rfl

/-- Where a computation ends, the state has taken steps of a relation. -/
def Steps (relation : σ → σ → Prop) (computation : Run σ α) : Prop :=
  ∀ state, (computation state).1 ≠ .endless →
    Relation.ReflTransGen relation state (computation state).2

namespace Steps

variable {relation other : σ → σ → Prop}

theorem result (value : α) : Steps relation (pure value : Run σ α) := fun _ _ => .refl

theorem state : Steps relation (Run.state : Run σ σ) := fun _ _ => .refl

theorem fail (diagnostic : Diagnostic) : Steps relation (Run.fail diagnostic : Run σ α) :=
  fun _ _ => .refl

theorem crash (crash : Crash) : Steps relation (Run.crash crash : Run σ α) := fun _ _ => .refl

theorem orCrash (found : Except Crash α) : Steps relation (Run.orCrash found : Run σ α) := by
  intro state _
  cases found <;> exact .refl

theorem orFail (found : Except Diagnostic α) : Steps relation (Run.orFail found : Run σ α) := by
  intro state _
  cases found <;> exact .refl

/-- A change of the state that is a step. -/
theorem update {change : σ → σ} (step : ∀ state, relation state (change state)) :
    Steps relation (Run.update change) :=
  fun state _ => .single (step state)

/-- What is made of steps leads by steps from the first state to the last. -/
theorem bind {first : Run σ α} {next : α → Run σ β} (firstSteps : Steps relation first)
    (nextSteps : ∀ value, Steps relation (next value)) : Steps relation (first >>= next) := by
  intro state ended
  have reached := firstSteps state
  rw [bind_apply] at ended ⊢
  generalize first state = ran at ended reached ⊢
  obtain ⟨outcome, middle⟩ := ran
  cases outcome with
  | done value => exact (reached (by simp)).trans (nextSteps value middle ended)
  | failed diagnostic => exact reached (by simp)
  | crashed crash => exact reached (by simp)
  | endless => exact absurd rfl ended

/-- Steps of one relation are steps of every weaker one. -/
theorem mono {computation : Run σ α} (steps : Steps relation computation)
    (weaker : ∀ before after, relation before after → other before after) :
    Steps other computation :=
  fun state ended => Relation.ReflTransGen.mono weaker state _ (steps state ended)

end Steps

/-- A computation does not end with a diagnostic. -/
def Unfailing (computation : Run σ α) : Prop :=
  ∀ state diagnostic, (computation state).1 ≠ .failed diagnostic

namespace Unfailing

theorem result (value : α) : Unfailing (pure value : Run σ α) := by simp [Unfailing]

theorem state : Unfailing (Run.state : Run σ σ) := by simp [Unfailing]

theorem update (change : σ → σ) : Unfailing (Run.update change) := by simp [Unfailing]

theorem crash (crash : Crash) : Unfailing (Run.crash crash : Run σ α) := by simp [Unfailing]

theorem orCrash (found : Except Crash α) : Unfailing (Run.orCrash found : Run σ α) := by
  intro state diagnostic
  cases found <;> simp

/-- A sequence of computations that do not fail does not fail. -/
theorem bind {first : Run σ α} {next : α → Run σ β} (firstUnfailing : Unfailing first)
    (nextUnfailing : ∀ value, Unfailing (next value)) : Unfailing (first >>= next) := by
  intro state diagnostic
  have notFailed := firstUnfailing state
  rw [bind_apply]
  generalize first state = ran at notFailed ⊢
  obtain ⟨outcome, middle⟩ := ran
  cases outcome with
  | done value => exact nextUnfailing value middle diagnostic
  | failed diagnostic => exact absurd rfl (notFailed diagnostic)
  | crashed crash => simp
  | endless => simp

end Unfailing

end Run

namespace Eval

variable {α β : Type}

/-- The first part is evaluated, and what follows goes on from its result. -/
theorem bind_apply (first : Eval α) (next : α → Eval β) (context : Context) (machine : Machine) :
    (first >>= next) context machine =
      match first context machine with
      | (.done value, machine) => next value context machine
      | (.failed diagnostic, machine) => (.failed diagnostic, machine)
      | (.crashed crash, machine) => (.crashed crash, machine)
      | (.endless, machine) => (.endless, machine) := rfl

/-- The rest of an evaluation goes on from the result of its first part. -/
theorem bind_of_done {first : Eval α} {context : Context} {machine after : Machine} {value : α}
    (ended : first context machine = (.done value, after)) (next : α → Eval β) :
    (first >>= next) context machine = next value context after := by
  rw [bind_apply, ended]

/-- A diagnostic of the first part is that of the whole. -/
theorem bind_of_failed {first : Eval α} {context : Context} {machine after : Machine}
    {diagnostic : Diagnostic} (ended : first context machine = (.failed diagnostic, after))
    (next : α → Eval β) : (first >>= next) context machine = (.failed diagnostic, after) := by
  rw [bind_apply, ended]

/-- A crash of the first part is one of the whole. -/
theorem bind_of_crashed {first : Eval α} {context : Context} {machine after : Machine}
    {crash : Crash} (ended : first context machine = (.crashed crash, after))
    (next : α → Eval β) : (first >>= next) context machine = (.crashed crash, after) := by
  rw [bind_apply, ended]

/-- If the first part comes to no end, neither does the whole. -/
theorem bind_of_endless {first : Eval α} {context : Context} {machine after : Machine}
    (ended : first context machine = (.endless, after)) (next : α → Eval β) :
    (first >>= next) context machine = (.endless, after) := by
  rw [bind_apply, ended]

theorem update_bind_apply (change : Machine → Machine) (next : Unit → Eval α) (context : Context)
    (machine : Machine) :
    (update change >>= next) context machine = next () context (change machine) := rfl

/-- An operation of the store changes nothing beside the store. -/
theorem onVault_apply (operation : Run Vault α) (context : Context) (machine : Machine) :
    onVault operation context machine =
      ((operation machine.vault).1, { machine with vault := (operation machine.vault).2 }) := rfl

theorem onVault_eq_of_done (context : Context) (machine : Machine) {operation : Run Vault α}
    {value : α} {vault : Vault} (ran : operation machine.vault = (.done value, vault)) :
    onVault operation context machine = (.done value, { machine with vault }) := by
  rw [onVault_apply, ran]

theorem onVaultAt_eq_of_done (span : Span) (context : Context) (machine : Machine)
    {operation : Run Vault α} {value : α} {vault : Vault}
    (ran : operation machine.vault = (.done value, vault)) :
    onVaultAt span operation context machine = (.done value, { machine with vault }) := by
  rw [onVaultAt, onVault_eq_of_done context machine ran]

/-- A computation does not end with a diagnostic. -/
def Unfailing (computation : Eval α) : Prop :=
  ∀ context machine diagnostic, (computation context machine).1 ≠ .failed diagnostic

/-- If the whole has come to its own end, a first part that cannot fail has given a result. -/
theorem bind_of_returned {first : Eval α} {next : α → Eval β} {context : Context}
    {machine : Machine} (unfailing : first.Unfailing)
    (returned : ((first >>= next) context machine).1.Returned) :
    ∃ value middle, first context machine = (.done value, middle) ∧
      (first >>= next) context machine = next value context middle := by
  have notFailed := unfailing context machine
  rw [bind_apply] at returned ⊢
  generalize first context machine = ran at notFailed returned ⊢
  obtain ⟨outcome, middle⟩ := ran
  cases outcome with
  | done value => exact ⟨value, middle, rfl, rfl⟩
  | failed diagnostic => exact absurd rfl (notFailed diagnostic)
  | crashed crash => cases returned
  | endless => cases returned

theorem Unfailing.result (value : α) : Unfailing (pure value : Eval α) := by
  intro context machine diagnostic failed
  cases failed

theorem Unfailing.update (change : Machine → Machine) : Unfailing (Eval.update change) := by
  simp [Unfailing, Eval.update]

theorem Unfailing.onVault {operation : Run Vault α} (unfailing : operation.Unfailing) :
    Unfailing (Eval.onVault operation) :=
  fun _ machine => unfailing machine.vault

/-- A sequence of evaluations that do not fail does not fail. -/
theorem Unfailing.bind {first : Eval α} {next : α → Eval β} (firstUnfailing : first.Unfailing)
    (nextUnfailing : ∀ value, (next value).Unfailing) : Unfailing (first >>= next) := by
  intro context machine diagnostic failed
  have returned : ((first >>= next) context machine).1.Returned := by
    rw [failed]
    exact .failed diagnostic
  obtain ⟨value, middle, _, rest⟩ := bind_of_returned firstUnfailing returned
  rw [rest] at failed
  exact nextUnfailing value context middle diagnostic failed

/-- What is done at the end of a body that has come to its own end. -/
def finishing (atEnd : Eval Unit) (outcome : Outcome α) : Eval α := fun context machine =>
  match atEnd context machine with
  | (.done _, machine) => (outcome, machine)
  | (.failed diagnostic, machine) => (.failed diagnostic, machine)
  | (.crashed crash, machine) => (.crashed crash, machine)
  | (.endless, machine) => (.endless, machine)

/-- What is left at the end of a body is what the closing part leaves. -/
theorem finishing_snd (atEnd : Eval Unit) (outcome : Outcome α) (context : Context)
    (machine : Machine) :
    (finishing atEnd outcome context machine).2 = (atEnd context machine).2 := by
  unfold finishing
  generalize atEnd context machine = ran
  obtain ⟨ended, after⟩ := ran
  cases ended <;> rfl

/-- A body that comes to its own end is followed by the closing part. -/
theorem ensuring_of_body {body : Eval α} {context : Context} {machine middle : Machine}
    {outcome : Outcome α} (ran : body context machine = (outcome, middle))
    (returned : outcome.Returned) (atEnd : Eval Unit) :
    ensuring body atEnd context machine = finishing atEnd outcome context middle := by
  unfold ensuring
  rw [ran]
  cases outcome with
  | done value => rfl
  | failed diagnostic => rfl
  | crashed crash => cases returned
  | endless => cases returned

/-- If the closing part is done, the whole has the result of the body. -/
theorem ensuring_of_done {body : Eval α} {atEnd : Eval Unit} {context : Context}
    {machine middle after : Machine} {value : α}
    (ran : body context machine = (.done value, middle))
    (ended : atEnd context middle = (.done (), after)) :
    ensuring body atEnd context machine = (.done value, after) := by
  rw [ensuring_of_body ran (.done value), finishing, ended]

/-- After a body that has come to its own end both kinds of brackets do the same. -/
theorem followedBy_eq_ensuring {body : Eval α} {context : Context} {machine : Machine}
    (returned : (body context machine).1.Returned) (atEnd : Eval Unit) :
    followedBy body atEnd context machine = ensuring body atEnd context machine := by
  unfold followedBy ensuring
  generalize body context machine = ran at returned ⊢
  obtain ⟨outcome, middle⟩ := ran
  cases outcome with
  | done value => rfl
  | failed diagnostic => rfl
  | crashed crash => cases returned
  | endless => cases returned

theorem followedBy_of_body {body : Eval α} {context : Context} {machine middle : Machine}
    {outcome : Outcome α} (ran : body context machine = (outcome, middle))
    (returned : outcome.Returned) (atEnd : Eval Unit) :
    followedBy body atEnd context machine = finishing atEnd outcome context middle := by
  rw [followedBy_eq_ensuring (by rwa [ran]), ensuring_of_body ran returned]

/-- A crash of the body is noted, and what is done at the end can only crash in turn. -/
theorem ensuring_of_crashed {body : Eval α} {context : Context} {machine middle : Machine}
    {crash : Crash} (ran : body context machine = (.crashed crash, middle)) (atEnd : Eval Unit) :
    ensuring body atEnd context machine =
      finishing atEnd (.crashed crash) context (middle.noting (.crashed crash : Outcome α)) := by
  unfold ensuring
  rw [ran]
  rfl

/-- Nothing closes a body that comes to no end. -/
theorem ensuring_of_endless {body : Eval α} {context : Context} {machine middle : Machine}
    (ran : body context machine = (.endless, middle)) (atEnd : Eval Unit) :
    ensuring body atEnd context machine = (.endless, middle) := by
  unfold ensuring
  rw [ran]

/-- A crash leaves a declaration open. -/
theorem followedBy_of_crashed {body : Eval α} {context : Context} {machine middle : Machine}
    {crash : Crash} (ran : body context machine = (.crashed crash, middle)) (atEnd : Eval Unit) :
    followedBy body atEnd context machine = (.crashed crash, middle) := by
  unfold followedBy
  rw [ran]

theorem followedBy_of_endless {body : Eval α} {context : Context} {machine middle : Machine}
    (ran : body context machine = (.endless, middle)) (atEnd : Eval Unit) :
    followedBy body atEnd context machine = (.endless, middle) := by
  unfold followedBy
  rw [ran]

/-- If the whole has returned, the body has, and the closing part is done. -/
theorem finishing_of_returned {atEnd : Eval Unit} {outcome : Outcome α} {context : Context}
    {machine : Machine} (unfailing : atEnd.Unfailing)
    (returned : (finishing atEnd outcome context machine).1.Returned) :
    outcome.Returned ∧ atEnd context machine =
      (.done (), (finishing atEnd outcome context machine).2) := by
  have notFailed := unfailing context machine
  unfold finishing at returned ⊢
  generalize atEnd context machine = ran at notFailed returned ⊢
  obtain ⟨ended, after⟩ := ran
  cases ended with
  | done value => exact ⟨returned, rfl⟩
  | failed diagnostic => exact absurd rfl (notFailed diagnostic)
  | crashed crash => cases returned
  | endless => cases returned

/-- If the whole has come to its own end, so has the body, and what is done at the end has been
done. -/
theorem ensuring_of_returned {body : Eval α} {atEnd : Eval Unit} {context : Context}
    {machine : Machine} (unfailing : atEnd.Unfailing)
    (returned : (ensuring body atEnd context machine).1.Returned) :
    (body context machine).1.Returned ∧ atEnd context (body context machine).2 =
      (.done (), (ensuring body atEnd context machine).2) := by
  cases ran : body context machine with
  | mk outcome middle =>
      cases outcome with
      | done value =>
          rw [ensuring_of_body ran (.done _)] at returned ⊢
          exact finishing_of_returned unfailing returned
      | failed diagnostic =>
          rw [ensuring_of_body ran (.failed _)] at returned ⊢
          exact finishing_of_returned unfailing returned
      | crashed crash =>
          rw [ensuring_of_crashed ran] at returned
          exact nomatch (finishing_of_returned unfailing returned).1
      | endless =>
          rw [ensuring_of_endless ran] at returned
          cases returned

theorem returned_of_followedBy {body : Eval α} {atEnd : Eval Unit} {context : Context}
    {machine : Machine} (returned : (followedBy body atEnd context machine).1.Returned) :
    (body context machine).1.Returned := by
  cases ran : body context machine with
  | mk outcome middle =>
      cases outcome with
      | done value => exact .done value
      | failed diagnostic => exact .failed diagnostic
      | crashed crash =>
          rw [followedBy_of_crashed ran] at returned
          cases returned
      | endless =>
          rw [followedBy_of_endless ran] at returned
          cases returned

/-- If a declaration has returned, so has its body, and its end is done. -/
theorem followedBy_of_returned {body : Eval α} {atEnd : Eval Unit} {context : Context}
    {machine : Machine} (unfailing : atEnd.Unfailing)
    (returned : (followedBy body atEnd context machine).1.Returned) :
    (body context machine).1.Returned ∧ atEnd context (body context machine).2 =
      (.done (), (followedBy body atEnd context machine).2) := by
  have same := followedBy_eq_ensuring (returned_of_followedBy returned) atEnd
  rw [same] at returned ⊢
  exact ensuring_of_returned unfailing returned

end Eval

end ScopeScript
