import Mathlib.Order.Filter.AtTopBot.Basic
import ScopeScript.Proofs.Evaluator.Forest
import ScopeScript.Proofs.Termination.Store

/-!
# Evaluations that settle

An evaluation with fuel is a family of computations, one for each amount of fuel. It settles if with
enough fuel it always ends in the same way, and not for want of fuel: with a result or a diagnostic,
with a crash, or kept busy by an operator whose result never comes. What is enough may depend on
the state.

Settling is relative to a budget, the number of levels that calls, formulas and imports may still go
deeper. `Eval.Settles.deeper` is where it is spent; every other part of the evaluator hands it on.
-/

namespace ScopeScript

open Filter (atTop)

/-- An evaluation is kept busy by an operator whose result never comes, or by what follows on a
crash. -/
def Machine.IsStuck (machine : Machine) : Prop :=
  (∃ operator left right, machine.stuckOn? = some (operator, left, right) ∧
    BinaryOperator.result? operator left right = none) ∨ machine.firstCrash?.isSome = true

/-- The open scopes are known, as long as the numbers of the slots fit, and everything that a
program can get at is free of loops. -/
structure Machine.Calm (openings : List Opening) (machine : Machine) : Prop where
  someOpen : openings ≠ []
  forest : machine.vault.Fits → machine.vault.Forest openings
  stored : machine.vault.LoopFree
  yielded : ∀ values ∈ machine.activations, ∀ value ∈ values, value.LoopFree

/-- How an operation on the store may end, as long as the numbers of the slots fit: with a result,
which may have opened a scope, with a diagnostic, or with a crash. -/
def Vault.Regular (inner : α → List Opening) (outer : List Opening) : Outcome α × Vault → Prop
  | (.done value, after) => after.Fits → after.Forest (inner value)
  | (.failed _, after) => after.Fits → after.Forest outer
  | (.crashed _, _) => True
  | (.endless, _) => False

/-- How an evaluation may end that does not run out of fuel. A result may have opened a scope. -/
def Machine.Opened (inner : α → List Opening) (outer : List Opening) (depth : Nat) (P : α → Prop)
    (machine : Machine) : Outcome α → Prop
  | .done value => P value ∧ machine.Calm (inner value) ∧ machine.depth = depth
  | .failed _ => machine.Calm outer ∧ machine.depth = depth
  | .crashed _ => True
  | .endless => machine.vault.Fits → machine.IsStuck

/-- The same where nothing is open that was not open before. -/
abbrev Machine.Settled (openings : List Opening) (depth : Nat) (P : α → Prop) (machine : Machine)
    (outcome : Outcome α) : Prop :=
  machine.Opened (fun _ => openings) openings depth P outcome

/-- With enough fuel an evaluation ends always in the same way, which is a good one. -/
def Eval.EndsUp (family : Nat → Eval α) (context : Context) (machine : Machine)
    (good : Machine → Outcome α → Prop) : Prop :=
  ∃ outcome after, (∀ᶠ fuel in atTop, family fuel context machine = (outcome, after)) ∧
    good after outcome

/-- From every state that leaves not more than a budget of nesting, an evaluation ends in the same
way for all sufficient amounts of fuel, and what it gives has a property. -/
def Eval.Settles (budget : Nat) (P : α → Prop) (family : Nat → Eval α) : Prop :=
  ∀ (context : Context) (machine : Machine) (openings : List Opening),
    context.config.LoopFree → machine.Calm openings →
    context.config.maxDepth ≤ machine.depth + budget →
    Eval.EndsUp family context machine (Machine.Settled openings machine.depth P)

namespace Machine.Calm

variable {machine : Machine} {openings : List Opening}

/-- A change beside the store. -/
theorem beside (calm : machine.Calm openings) {after : Machine}
    (vault : after.vault = machine.vault)
    (yielded : ∀ values ∈ after.activations, ∀ value ∈ values, value.LoopFree) :
    after.Calm openings := by
  refine ⟨calm.someOpen, ?_, ?_, yielded⟩
  · rw [vault]
    exact calm.forest
  · rw [vault]
    exact calm.stored

/-- An operation on the store that may open or close a scope. -/
theorem ran (calm : machine.Calm openings) {inner : α → List Opening} {outer : List Opening}
    {operation : Run Vault α} {P : α → Prop} (someInner : ∀ value, inner value ≠ [])
    (someOuter : outer ≠ []) (widens : operation.Widens) (harmless : Vault.Harmless P operation)
    (regular : ∀ {vault : Vault}, vault.Forest openings →
      Vault.Regular inner outer (operation vault)) (context : Context) :
    (Eval.onVault operation context machine).2.Opened inner outer machine.depth P
      (Eval.onVault operation context machine).1 := by
  have regular (fits : machine.vault.Fits) := regular (calm.forest fits)
  have wide := widens machine.vault
  obtain ⟨free, holds⟩ := harmless machine.vault calm.stored
  rw [Eval.onVault_apply]
  generalize operation machine.vault = ran at regular wide free holds ⊢
  obtain ⟨outcome, vault⟩ := ran
  cases outcome with
  | done value =>
      exact ⟨holds value rfl, ⟨someInner value, fun fits => regular (wide.fits fits) fits, free,
        calm.yielded⟩, rfl⟩
  | failed diagnostic =>
      exact ⟨⟨someOuter, fun fits => regular (wide.fits fits) fits, free, calm.yielded⟩, rfl⟩
  | crashed crash => trivial
  | endless => exact fun fits => (regular (wide.fits fits)).elim

/-- An operation that neither enters nor leaves nor creates a scope. -/
theorem plain (calm : machine.Calm openings) {operation : Run Vault α} {P : α → Prop}
    (plain : Vault.Plain operation) (harmless : Vault.Harmless P operation) (context : Context) :
    (Eval.onVault operation context machine).2.Settled openings machine.depth P
      (Eval.onVault operation context machine).1 := by
  refine calm.ran (fun _ => calm.someOpen) calm.someOpen plain.widens harmless (fun forest => ?_)
    context
  rcases plain.forest forest calm.someOpen with
    ⟨outcome, after, ran, returned, kept⟩ | ⟨after, crashed⟩
  · rw [ran]
    cases returned <;> exact fun _ => kept
  · rw [crashed]
    trivial

end Machine.Calm

/-- That diagnostics of the store are given a place makes no difference. -/
theorem Machine.Opened.located {operation : Run Vault α} {context : Context} {machine : Machine}
    {inner : α → List Opening} {outer : List Opening} {depth : Nat} {P : α → Prop} (span : Span)
    (opened : (Eval.onVault operation context machine).2.Opened inner outer depth P
      (Eval.onVault operation context machine).1) :
    (Eval.onVaultAt span operation context machine).2.Opened inner outer depth P
      (Eval.onVaultAt span operation context machine).1 := by
  unfold Eval.onVaultAt
  generalize Eval.onVault operation context machine = ran at opened ⊢
  obtain ⟨outcome, after⟩ := ran
  cases outcome <;> exact opened

namespace Eval

variable {α β : Type} {budget : Nat} {P : α → Prop} {Q : β → Prop}

namespace EndsUp

variable {context : Context} {machine opened : Machine} {inner outer : List Opening}
  {depth inside : Nat}

/-- A computation that does not depend on the fuel. -/
theorem of_fixed {computation : Eval α} {good : Machine → Outcome α → Prop}
    (holds : good (computation context machine).2 (computation context machine).1) :
    EndsUp (fun _ => computation) context machine good :=
  ⟨_, _, .of_forall fun _ => rfl, holds⟩

/-- An evaluation that goes on as another one. -/
theorem of_eq {family other : Nat → Eval α} {good : Machine → Outcome α → Prop}
    (ran : EndsUp other context opened good)
    (same : ∀ fuel, family fuel context machine = other fuel context opened) :
    EndsUp family context machine good := by
  obtain ⟨outcome, after, settles, holds⟩ := ran
  exact ⟨outcome, after, settles.mono fun fuel => (same fuel).trans, holds⟩

/-- What follows a settled part goes on with as much fuel as it needs itself. -/
theorem bind {opened : α → List Opening} {first : Nat → Eval α} {next : α → Nat → Eval β}
    (ran : EndsUp first context machine (Machine.Opened opened outer depth P))
    (goesOn : ∀ value middle, P value → middle.Calm (opened value) → middle.depth = depth →
      EndsUp (next value) context middle (Machine.Settled outer depth Q)) :
    EndsUp (fun fuel => first fuel >>= fun value => next value fuel) context machine
      (Machine.Settled outer depth Q) := by
  obtain ⟨outcome, middle, settles, holds⟩ := ran
  cases outcome with
  | done value =>
      obtain ⟨holds, calm, sameDepth⟩ := holds
      obtain ⟨outcome, after, settlesNext, holdsNext⟩ := goesOn value middle holds calm sameDepth
      refine ⟨outcome, after, ?_, holdsNext⟩
      filter_upwards [settles, settlesNext] with fuel same sameNext
      exact (bind_of_done same _).trans sameNext
  | failed diagnostic =>
      exact ⟨_, middle, settles.mono fun fuel same => bind_of_failed same _, holds⟩
  | crashed crash =>
      exact ⟨_, middle, settles.mono fun fuel same => bind_of_crashed same _, trivial⟩
  | endless =>
      exact ⟨_, middle, settles.mono fun fuel same => bind_of_endless same _, holds⟩

/-- Where there is no diagnostic, what is open after one does not matter. -/
theorem of_unfailing {opened : α → List Opening} {other : List Opening} {family : Nat → Eval α}
    (unfailing : ∀ fuel, (family fuel).Unfailing)
    (ran : EndsUp family context machine (Machine.Opened opened inner depth P)) :
    EndsUp family context machine (Machine.Opened opened other depth P) := by
  obtain ⟨outcome, after, settles, holds⟩ := ran
  refine ⟨outcome, after, settles, ?_⟩
  cases outcome with
  | failed diagnostic =>
      obtain ⟨fuel, same⟩ := settles.exists
      exact absurd (congrArg Prod.fst same) (unfailing fuel context machine diagnostic)
  | _ => exact holds

/-- What is done at the end of a body that has come to its own end. -/
theorem finishing {atEnd : Eval Unit} {outcome : Outcome α} (returned : outcome.Returned)
    (settled : machine.Settled inner inside P outcome)
    (closing : ∀ {after : Machine}, after.Calm inner → after.depth = inside →
      (atEnd context after).2.Settled outer depth (fun _ => True) (atEnd context after).1) :
    (Eval.finishing atEnd outcome context machine).2.Settled outer depth P
      (Eval.finishing atEnd outcome context machine).1 := by
  unfold Eval.finishing
  cases outcome with
  | done value =>
      have closed := closing settled.2.1 settled.2.2
      generalize atEnd context machine = ran at closed ⊢
      obtain ⟨ended, after⟩ := ran
      cases ended with
      | done => exact ⟨settled.1, closed.2⟩
      | failed diagnostic => exact closed
      | crashed crash => trivial
      | endless => exact closed
  | failed diagnostic =>
      have closed := closing settled.1 settled.2
      generalize atEnd context machine = ran at closed ⊢
      obtain ⟨ended, after⟩ := ran
      cases ended with
      | done => exact closed.2
      | failed diagnostic => exact closed
      | crashed crash => trivial
      | endless => exact closed
  | crashed crash => cases returned
  | endless => cases returned

/-- What follows on a crash keeps the crash on the record. -/
theorem finishing_of_crashed {atEnd : Eval Unit} (unfailing : atEnd.Unfailing)
    (incurious : atEnd.Incurious) (crash : Crash) (context : Context) (machine : Machine) :
    let noted := machine.noting (.crashed crash : Outcome α)
    (Eval.finishing atEnd (.crashed crash : Outcome α) context noted).2.Settled outer depth P
      (Eval.finishing atEnd (.crashed crash : Outcome α) context noted).1 := by
  have recorded : (machine.noting (.crashed crash : Outcome α)).firstCrash?.isSome = true := by
    unfold Machine.noting
    cases machine.firstCrash? <;> rfl
  intro noted
  have kept := incurious context noted
  have notFailed := unfailing context noted
  unfold Eval.finishing
  generalize atEnd context noted = ran at kept notFailed ⊢
  obtain ⟨ended, after⟩ := ran
  cases ended with
  | done => trivial
  | failed diagnostic => exact absurd rfl (notFailed diagnostic)
  | crashed crash => trivial
  | endless => exact fun _ => .inr (kept ▸ recorded)

/-- A bracket settles with its body, and then it is closed. -/
theorem ensuring {family : Nat → Eval α} {atEnd : Eval Unit} (unfailing : atEnd.Unfailing)
    (incurious : atEnd.Incurious)
    (ran : EndsUp family context opened (Machine.Settled inner inside P))
    (closing : ∀ {after : Machine}, after.Calm inner → after.depth = inside →
      (atEnd context after).2.Settled outer depth (fun _ => True) (atEnd context after).1) :
    EndsUp (fun fuel => Eval.ensuring (family fuel) atEnd) context opened
      (Machine.Settled outer depth P) := by
  obtain ⟨outcome, middle, settles, holds⟩ := ran
  cases outcome with
  | done value =>
      refine ⟨_, _, ?_, finishing (.done value) holds closing⟩
      exact settles.mono fun fuel same => ensuring_of_body same (.done value) atEnd
  | failed diagnostic =>
      refine ⟨_, _, ?_, finishing (.failed diagnostic) holds closing⟩
      exact settles.mono fun fuel same => ensuring_of_body same (.failed diagnostic) atEnd
  | crashed crash =>
      refine ⟨_, _, ?_, finishing_of_crashed unfailing incurious crash context middle⟩
      exact settles.mono fun fuel same => ensuring_of_crashed same atEnd
  | endless =>
      refine ⟨.endless, middle, ?_, holds⟩
      exact settles.mono fun fuel same => ensuring_of_endless same atEnd

/-- A bracket that changes something beside the scopes for the time of the body. -/
theorem undoing {family : Nat → Eval α} (undo : Machine → Machine)
    (ran : EndsUp family context opened (Machine.Settled outer inside P))
    (undone : ∀ after : Machine, after.Calm outer → after.depth = inside →
      (undo after).Calm outer ∧ (undo after).depth = depth)
    (incurious : ∀ after : Machine, (undo after).firstCrash? = after.firstCrash?) :
    EndsUp (fun fuel => Eval.ensuring (family fuel) (Eval.update undo)) context opened
      (Machine.Settled outer depth P) :=
  ensuring (.update undo) (fun _ => incurious) ran fun calm sameDepth =>
    ⟨trivial, undone _ calm sameDepth⟩

/-- A bracket that a crash leaves open settles with its body as well. -/
theorem followedBy {family : Nat → Eval α} {atEnd : Eval Unit}
    (ran : EndsUp family context opened (Machine.Settled inner inside P))
    (closing : ∀ {after : Machine}, after.Calm inner → after.depth = inside →
      (atEnd context after).2.Settled outer depth (fun _ => True) (atEnd context after).1) :
    EndsUp (fun fuel => Eval.followedBy (family fuel) atEnd) context opened
      (Machine.Settled outer depth P) := by
  obtain ⟨outcome, middle, settles, holds⟩ := ran
  cases outcome with
  | done value =>
      refine ⟨_, _, ?_, finishing (.done value) holds closing⟩
      exact settles.mono fun fuel same => followedBy_of_body same (.done value) atEnd
  | failed diagnostic =>
      refine ⟨_, _, ?_, finishing (.failed diagnostic) holds closing⟩
      exact settles.mono fun fuel same => followedBy_of_body same (.failed diagnostic) atEnd
  | crashed crash =>
      refine ⟨.crashed crash, middle, ?_, trivial⟩
      exact settles.mono fun fuel same => followedBy_of_crashed same atEnd
  | endless =>
      refine ⟨.endless, middle, ?_, holds⟩
      exact settles.mono fun fuel same => followedBy_of_endless same atEnd

end EndsUp

namespace Settles

/-! ## Parts that do not depend on the fuel -/

/-- A computation that does not depend on the fuel and settles at once. -/
theorem of_fixed {computation : Eval α}
    (holds : ∀ (context : Context) (machine : Machine) (openings : List Opening),
      context.config.LoopFree → machine.Calm openings →
      (computation context machine).2.Settled openings machine.depth P
        (computation context machine).1) :
    Settles budget P fun _ => computation :=
  fun context machine openings free calm _ => .of_fixed (holds context machine openings free calm)

/-- A result needs no fuel. -/
theorem result {value : α} (holds : P value) : Settles budget P fun _ => (pure value : Eval α) :=
  of_fixed fun _ _ _ _ calm => ⟨holds, calm, rfl⟩

theorem fail (diagnostic : Diagnostic) :
    Settles budget P fun _ => (Eval.fail diagnostic : Eval α) :=
  of_fixed fun _ _ _ _ calm => ⟨calm, rfl⟩

theorem failAt (span : Span) (kind : DiagnosticKind) (message : String) :
    Settles budget P fun _ => (Eval.failAt span kind message : Eval α) :=
  of_fixed fun _ _ _ _ calm => ⟨calm, rfl⟩

/-- The state is one in which everything is free of loops. -/
theorem machine :
    Settles budget (fun machine => machine.vault.LoopFree ∧
      ∀ values ∈ machine.activations, ∀ value ∈ values, value.LoopFree)
      fun _ => Eval.machine :=
  of_fixed fun _ _ _ _ calm => ⟨⟨calm.stored, calm.yielded⟩, calm, rfl⟩

/-- The files that can be imported have no loops. -/
theorem config : Settles budget Config.LoopFree fun _ => Eval.config :=
  of_fixed fun _ _ _ free calm => ⟨free, calm, rfl⟩

theorem origin : Settles budget (fun _ => True) fun _ => Eval.origin :=
  of_fixed fun _ _ _ _ calm => ⟨trivial, calm, rfl⟩

/-- A change beside scopes and calls needs no fuel. -/
theorem aside {change : Machine → Machine}
    (same : ∀ machine : Machine, machine.Aside (change machine)) :
    Settles budget (fun _ => True) fun _ => Eval.update change := by
  refine of_fixed fun _ machine _ _ calm => ⟨trivial, ?_, (same machine).depth⟩
  refine calm.beside (same machine).vault fun values member => ?_
  exact calm.yielded values ((same machine).activations ▸ member)

/-- A yielded value has no loops. -/
theorem yielding {value : Value} (free : value.LoopFree) :
    Settles budget (fun _ => True) fun _ => Eval.yielding value := by
  refine of_fixed fun _ machine _ _ calm => ⟨trivial, calm.beside rfl ?_, rfl⟩
  exact Evaluator.forall_yielded calm.yielded free

/-- An operator has a result, or the evaluation is stuck on it. -/
theorem applyBinary (operator : BinaryOperator) (left right : Value) :
    Settles budget Value.LoopFree fun _ => Evaluator.applyBinary operator left right := by
  refine of_fixed fun _ machine _ _ calm => ?_
  unfold Evaluator.applyBinary
  cases computed : operator.result? left right with
  | some value => exact ⟨.result? computed, calm, rfl⟩
  | none => exact fun _ => .inl ⟨operator, left, right, rfl, computed⟩

theorem queryAt (span : Span) {query : Vault → Except Diagnostic α}
    (holds : ∀ vault value, vault.LoopFree → query vault = .ok value → P value) :
    Settles budget P fun _ => Eval.queryAt span query := by
  refine of_fixed fun _ machine _ _ calm => ?_
  unfold Eval.queryAt
  split
  · next found => exact ⟨holds machine.vault _ calm.stored found, calm, rfl⟩
  · exact ⟨calm, rfl⟩

/-- Harmless operations of the store need no fuel. -/
theorem onVault {operation : Run Vault α} (plain : Vault.Plain operation)
    (harmless : Vault.Harmless P operation) : Settles budget P fun _ => Eval.onVault operation :=
  of_fixed fun context _ _ _ calm => calm.plain plain harmless context

theorem define (name : String) {value : Value} (free : value.LoopFree) :
    Settles budget (fun _ => True) fun _ => Eval.define name value :=
  onVault (.define name value) (.define name free)

/-- The same with a place for a diagnostic. -/
theorem onVaultAt {operation : Run Vault α} (span : Span) (plain : Vault.Plain operation)
    (harmless : Vault.Harmless P operation) :
    Settles budget P fun _ => Eval.onVaultAt span operation :=
  of_fixed fun context _ _ _ calm => (calm.plain plain harmless context).located span

/-- Go on with a result of the store, or without one. -/
theorem resume {operation : Run Vault α} {next : α → Eval β} {otherwise : Eval β}
    (plain : Vault.Plain operation) (harmless : Vault.Harmless P operation)
    (settlesNext : ∀ value, P value → Settles budget Q fun _ => next value)
    (settlesOtherwise : Settles budget Q fun _ => otherwise) :
    Settles budget Q fun _ => (Eval.onVault operation).resume next otherwise := by
  intro context machine openings free calm within
  have settled := calm.plain plain harmless context
  have continues {continuation : Eval β} {middle : Machine}
      (settles : Settles budget Q fun _ => continuation) (calmMiddle : middle.Calm openings)
      (sameDepth : middle.depth = machine.depth)
      (same : (Eval.onVault operation).resume next otherwise context machine =
        continuation context middle) :
      EndsUp (fun _ => (Eval.onVault operation).resume next otherwise) context machine
        (Machine.Settled openings machine.depth Q) := by
    rw [← sameDepth] at within ⊢
    obtain ⟨outcome, after, ended, holds⟩ :=
      settles context middle openings free calmMiddle within
    exact ⟨outcome, after, ended.mono fun _ => same.trans, holds⟩
  cases ran : Eval.onVault operation context machine with
  | mk outcome middle =>
      rw [ran] at settled
      cases outcome with
      | done value =>
          refine continues (settlesNext value settled.1) settled.2.1 settled.2.2 ?_
          rw [Eval.resume, ran]
      | failed diagnostic =>
          refine continues settlesOtherwise settled.1 settled.2 ?_
          rw [Eval.resume, ran]
      | crashed crash =>
          refine ⟨.crashed crash, middle, .of_forall fun _ => ?_, trivial⟩
          simp only [Eval.resume, ran]
      | endless =>
          refine ⟨.endless, middle, .of_forall fun _ => ?_, settled⟩
          simp only [Eval.resume, ran]

/-! ## Sequences and cases -/

/-- A sequence settles if its parts do, with the larger amount of fuel. -/
theorem bind {first : Nat → Eval α} {next : α → Nat → Eval β} (settles : Settles budget P first)
    (settlesNext : ∀ value, P value → Settles budget Q (next value)) :
    Settles budget Q fun fuel => first fuel >>= fun value => next value fuel := by
  intro context machine openings free calm within
  refine .bind (settles context machine openings free calm within) ?_
  intro value middle holds calmMiddle sameDepth
  rw [← sameDepth] at within ⊢
  exact settlesNext value holds context middle openings free calmMiddle within

theorem ite {condition : Prop} [Decidable condition] {first second : Nat → Eval α}
    (positive : condition → Settles budget P first)
    (negative : ¬condition → Settles budget P second) :
    Settles budget P fun fuel => if condition then first fuel else second fuel := by
  by_cases holds : condition
  · simpa only [if_pos holds] using positive holds
  · simpa only [if_neg holds] using negative holds

/-- Where the code comes from makes no difference. -/
theorem within (origin : Origin) {body : Nat → Eval α} (settles : Settles budget P body) :
    Settles budget P fun fuel => Eval.within origin (body fuel) :=
  fun context => settles { context with origin }

/-- What an evaluation does with one more unit of fuel decides. -/
theorem of_succ {family : Nat → Eval α} (settles : Settles budget P fun fuel => family (fuel + 1)) :
    Settles budget P family := by
  intro context machine openings free calm within
  obtain ⟨outcome, after, same, holds⟩ := settles context machine openings free calm within
  obtain ⟨enough, reached⟩ := Filter.eventually_atTop.1 same
  refine ⟨outcome, after, Filter.eventually_atTop.2 ⟨enough + 1, fun fuel more => ?_⟩, holds⟩
  obtain ⟨fuel, rfl⟩ := Nat.exists_eq_add_of_le' (Nat.le_of_add_left_le more)
  exact reached fuel (Nat.le_of_succ_le_succ more)

/-! ## Brackets -/

/-- A level deeper less of the budget is left. -/
theorem deeper {body : Nat → Eval α} (span : Span)
    (settles : ∀ smaller < budget, Settles smaller P body) :
    Settles budget P fun fuel => Eval.deeper span (body fuel) := by
  intro context machine openings free calm within
  by_cases tooDeep : context.config.maxDepth < machine.depth + 1
  · have refused : Settles budget P fun _ => Eval.failAt span .depthExceeded
        ("maximum depth of " ++ toString context.config.maxDepth ++ " exceeded") := failAt _ _ _
    refine (refused context machine openings free calm within).of_eq fun fuel => ?_
    rw [Eval.deeper, if_pos tooDeep]
  · let opened : Machine := { machine with depth := machine.depth + 1 }
    have less : context.config.maxDepth ≤ opened.depth + (budget - 1) := by
      change _ ≤ machine.depth + 1 + (budget - 1)
      omega
    have ran := settles (budget - 1) (by omega) context opened openings free
      (calm.beside rfl calm.yielded) less
    refine (EndsUp.undoing (fun machine => { machine with depth := machine.depth - 1 }) ran
      (fun after calmAfter inside => ⟨calmAfter.beside rfl calmAfter.yielded, ?_⟩)
      fun _ => rfl).of_eq fun fuel => ?_
    · exact congrArg (· - 1) inside
    · rw [Eval.deeper, if_neg tooDeep]

/-- Another file on top makes no difference. -/
theorem inFile {body : Nat → Eval α} (file : SourceFile) (settles : Settles budget P body) :
    Settles budget P fun fuel => Eval.inFile file (body fuel) := by
  intro context machine openings free calm within
  let opened : Machine := { machine with files := file :: machine.files }
  have ran := settles context opened openings free (calm.beside rfl calm.yielded) within
  exact (EndsUp.undoing (fun machine => { machine with files := machine.files.tail }) ran
    (fun after calmAfter inside => ⟨calmAfter.beside rfl calmAfter.yielded, inside⟩)
    fun _ => rfl).of_eq fun fuel => rfl

/-- A further activation makes no difference. -/
theorem activated {body : Nat → Eval α} (settles : Settles budget P body) :
    Settles budget P fun fuel => Evaluator.activated (body fuel) := by
  intro context machine openings free calm within
  let opened : Machine := { machine with activations := [] :: machine.activations }
  have calmInside : opened.Calm openings :=
    calm.beside rfl (List.forall_mem_cons.2 ⟨nofun, calm.yielded⟩)
  have ran := settles context opened openings free calmInside within
  refine (EndsUp.undoing (fun machine => { machine with activations := machine.activations.tail })
    ran (fun after calmAfter inside => ⟨calmAfter.beside rfl ?_, inside⟩)
    fun _ => rfl).of_eq fun fuel => rfl
  exact fun values member => calmAfter.yielded values (List.mem_of_mem_tail member)

/-- A block or box is left. -/
theorem leaving {kind : FrameKind} (isBlock : kind = .block ∨ kind = .boxed) {handle : Handle}
    {openings : List Opening} (someOpen : openings ≠ []) (context : Context) {machine : Machine}
    (calm : machine.Calm (.entered kind handle :: openings)) :
    (Eval.onVault (Vault.leave kind) context machine).2.Settled openings machine.depth
      (fun _ => True) (Eval.onVault (Vault.leave kind) context machine).1 := by
  refine calm.ran (fun _ => someOpen) someOpen (Vault.widens_leave kind) (.leave kind)
    (fun forest => ?_) context
  obtain ⟨after, left, kept⟩ := forest.leave isBlock
  rw [left]
  exact fun _ => kept

/-- A declaration ends, unless its name is missing. -/
theorem endingDeclaration {handle : Handle} (name : String) {openings : List Opening}
    (someOpen : openings ≠ []) (context : Context) {machine : Machine}
    (calm : machine.Calm (.declaration handle :: openings)) :
    (Eval.onVault (Vault.endDeclaration handle name) context machine).2.Settled openings
      machine.depth (fun _ => True)
      (Eval.onVault (Vault.endDeclaration handle name) context machine).1 := by
  refine calm.ran (fun _ => someOpen) someOpen (Vault.widens_endDeclaration handle name)
    (.endDeclaration handle name) (fun forest => ?_) context
  by_cases named : name = ""
  · obtain ⟨parent, adopted, ended, _⟩ := forest.endDeclaration_eq_rebind name
    rw [ended, named, Vault.rebind_empty]
    trivial
  · obtain ⟨after, ended, kept⟩ := forest.endDeclaration named
    rw [ended]
    exact fun _ => kept

/-- A block or box is entered. -/
theorem entering {kind : FrameKind} (isBlock : kind = .block ∨ kind = .boxed)
    {openings : List Opening} (context : Context) {machine : Machine}
    (calm : machine.Calm openings) :
    EndsUp (fun _ => Eval.onVault (Vault.enter kind)) context machine
      (Machine.Opened (fun handle => .entered kind handle :: openings) openings machine.depth
        fun _ => True) := by
  refine .of_fixed (calm.ran (fun _ => List.cons_ne_nil _ _) calm.someOpen
    (Vault.widens_enter kind) (.enter kind) (fun forest => ?_) context)
  obtain ⟨handle, after, entered, kept⟩ := forest.enter isBlock
  rw [entered]
  exact kept

/-- A declaration is begun. -/
theorem declaring (name : String) {openings : List Opening} (context : Context) {machine : Machine}
    (calm : machine.Calm openings) :
    EndsUp (fun _ => Eval.onVault (Vault.declare name)) context machine
      (Machine.Opened (fun handle => .declaration handle :: openings) openings machine.depth
        fun _ => True) := by
  refine .of_fixed (calm.ran (fun _ => List.cons_ne_nil _ _) calm.someOpen
    (Vault.widens_declare name) (.declare name) (fun forest => ?_) context)
  obtain ⟨handle, after, declared, kept⟩ := forest.declare calm.someOpen name
  rw [declared]
  exact kept

/-- A block settles with its body. -/
theorem inBlock {body : Nat → Eval α} (settles : Settles budget P body) :
    Settles budget P fun fuel => Eval.inBlock (body fuel) := by
  intro context machine openings free calm within
  refine .bind (entering (.inl rfl) context calm) fun handle opened _ calmInside sameDepth => ?_
  rw [← sameDepth] at within ⊢
  refine .ensuring (.onVault (Vault.unfailing_leave .block)) (fun _ _ => rfl)
    (settles context opened _ free calmInside within) fun {after} calmAfter inside => ?_
  rw [← inside]
  exact leaving (.inl rfl) calm.someOpen context calmAfter

/-- A visit settles with its body, or is refused. -/
theorem inScope {body : Nat → Eval α} (span : Span) (handle : Handle)
    (settles : Settles budget P body) :
    Settles budget P fun fuel => Evaluator.inScope span handle (body fuel) := by
  intro context machine openings free calm within
  have entered := calm.ran (fun _ => List.cons_ne_nil (Opening.visit handle) _) calm.someOpen
    (Vault.widens_enterNamed handle) (.enterNamed handle) (fun forest => by
      rcases forest.enterNamed handle with ⟨after, entered, kept⟩ | ⟨diagnostic, refused⟩
      · rw [entered]
        exact fun _ => kept
      · rw [refused]
        exact fun _ => forest) context
  refine .bind (.of_fixed (entered.located span)) fun _ opened _ calmInside sameDepth => ?_
  rw [← sameDepth] at within ⊢
  refine .ensuring (.onVault Vault.unfailing_exitNamed) (fun _ _ => rfl)
    (settles context opened _ free calmInside within) fun {after} calmAfter inside => ?_
  rw [← inside]
  refine calmAfter.ran (fun _ => calm.someOpen) calm.someOpen Vault.widens_exitNamed .exitNamed
    (fun forest => ?_) context
  obtain ⟨left, exited, kept⟩ := forest.exitNamed
  rw [exited]
  exact fun _ => kept

/-- A declaration settles with its body. -/
theorem inDeclaration {body : Nat → Eval α} (name : String) (settles : Settles budget P body) :
    Settles budget P fun fuel => Eval.inDeclaration name (body fuel) := by
  intro context machine openings free calm within
  refine .bind (declaring name context calm) fun handle opened _ calmInside sameDepth => ?_
  rw [← sameDepth] at within ⊢
  refine .ensuring (.onVault (Vault.unfailing_endDeclaration handle name)) (fun _ _ => rfl)
    (settles context opened _ free calmInside within) fun {after} calmAfter inside => ?_
  rw [← inside]
  exact endingDeclaration name calm.someOpen context calmAfter

/-- A scope that is declared settles with its statements. -/
theorem declareScope {statements : List Stmt} {recursion : Nat → Recursion} (name : String)
    (isContext : Bool) (settles : Settles budget Flow.LoopFree fun fuel =>
      (recursion fuel).execute statements) :
    Settles budget Flow.LoopFree fun fuel =>
      Evaluator.declareScope (recursion fuel) name statements isContext := by
  intro context machine openings free calm within
  have closing {handle : Handle} {opened : Machine}
      (calmOpened : opened.Calm (.declaration handle :: openings))
      (sameDepth : opened.depth = machine.depth) :
      EndsUp (fun fuel => Eval.followedBy ((recursion fuel).execute statements)
        (Eval.onVault (Vault.endDeclaration handle name))) context opened
        (Machine.Settled openings machine.depth Flow.LoopFree) := by
    rw [← sameDepth] at within ⊢
    refine .followedBy (settles context opened _ free calmOpened within)
      fun {after} calmAfter inside => ?_
    rw [← inside]
    exact endingDeclaration name calm.someOpen context calmAfter
  refine .bind (declaring name context calm) fun handle opened _ calmInside sameDepth => ?_
  cases isContext with
  | false => exact closing calmInside sameDepth
  | true =>
      have settlesThis : Settles budget (fun _ => True) fun _ =>
          Eval.define "this" (.scope handle) := define "this" (.scope handle)
      have bound := settlesThis context opened _ free calmInside (sameDepth ▸ within)
      rw [sameDepth] at bound
      exact .bind (.of_unfailing (fun _ => unfailing_define _ _) bound)
        fun _ filled _ calmFilled same => closing calmFilled same

theorem defineMethods (methods : List (String × Native)) :
    Settles budget (fun _ => True) fun _ => Evaluator.defineMethods methods := by
  induction methods with
  | nil => exact result trivial
  | cons method methods inductionHypothesis =>
      exact bind (define method.1 (.native _ : method.2.value.LoopFree)) fun _ _ =>
        inductionHypothesis

/-- A box settles with what is evaluated inside. -/
theorem inBox {body : Handle → Nat → Eval α} {value : Value} (freeValue : value.LoopFree)
    (settles : ∀ box, Settles budget P (body box)) :
    Settles budget P fun fuel => Evaluator.inBox value fun box => body box fuel := by
  intro context machine openings free calm within
  refine .bind (entering (.inr rfl) context calm) fun box opened _ calmInside sameDepth => ?_
  rw [← sameDepth] at within ⊢
  have holding : Settles budget (fun _ => True) fun _ => Eval.define Native.boxedValue value :=
    define Native.boxedValue freeValue
  refine .bind (.of_unfailing (fun _ => unfailing_define _ _)
    (holding context opened _ free calmInside within)) fun _ held _ calmHeld sameHeld => ?_
  rw [← sameHeld] at within ⊢
  refine .bind (.of_unfailing (fun _ => unfailing_defineMethods _)
    (defineMethods _ context held _ free calmHeld within)) fun _ filled _ calmFilled sameFilled => ?_
  rw [← sameFilled] at within ⊢
  refine .ensuring (.onVault (Vault.unfailing_leave .boxed)) (fun _ _ => rfl)
    (settles box context filled _ free calmFilled within) fun {after} calmAfter inside => ?_
  rw [← inside]
  exact leaving (.inr rfl) calm.someOpen context calmAfter

/-- Two scopes are created before anything else is done. -/
theorem founding {next : Handle → Handle → Nat → Eval α} (span : Span) (outer inner : String)
    (settles : ∀ scope part, Settles budget P (next scope part)) :
    Settles budget P fun fuel =>
      Eval.founding span outer inner fun scope part => next scope part fuel := by
  have owner : Settles budget (fun _ => True) fun _ => Eval.onVault Vault.owner :=
    of_fixed fun context _ _ _ calm => calm.ran (fun _ => calm.someOpen) calm.someOpen
      Vault.widens_owner Vault.ensures_owner (fun forest => by
        obtain ⟨handle, found⟩ := forest.owner calm.someOpen
        rw [found]
        exact fun _ => forest) context
  have createOwned (owner : Handle) (name : String) : Settles budget (fun _ => True) fun _ =>
      Eval.onVaultAt span (Vault.createOwned owner name) := by
    refine of_fixed fun context _ _ _ calm => Machine.Opened.located span ?_
    refine calm.ran (fun _ => calm.someOpen) calm.someOpen (Vault.widens_createOwned owner name)
      (.createOwned owner name) (fun forest => ?_) context
    rcases forest.createOwned owner name with ⟨handle, after, created, kept⟩ | ⟨_, refused⟩
    · rw [created]
      exact kept
    · rw [refused]
      exact fun _ => forest
  refine bind owner fun parent _ => bind (createOwned parent outer) fun scope _ => ?_
  exact bind (createOwned scope inner) fun part _ => settles scope part

end Settles

end Eval

end ScopeScript
