import ScopeScript.Proofs.Evaluator.Balance
import ScopeScript.Proofs.Evaluator.Widening

/-!
# Courses of computations

The result of a computation does not tell which native routines were called on the way, in which
order values were yielded and what the blocks did that were run. A course of a computation does: it
lists these events for each state the computation may start in. It is put together along with the
computation, one rule for each part, so the computation itself stays what it is.

A course accounts for what is found at the end: the values that the innermost activation has
collected in the meantime are those of the events, in order. What a function yields goes to its own
activation and is no event of the call. Only a computation that gives no slots back has a course.
-/

namespace ScopeScript

/-- What can be told about the course of a computation: a routine was called, a value was yielded,
or a block, an attempt or a call of a function has come to its own end, which had found one store
and left another one. -/
inductive Event
  | called (native : Native)
  | yielded (value : Value)
  | ran (found left : Vault)

namespace Event

/-- The value that was yielded, if one was. -/
def value? : Event → Option Value
  | .called _ | .ran _ _ => none
  | .yielded value => some value

/-- A computation was run that found some store, if it has come to its own end. -/
def ofRun {α : Type} (found : Vault) : Outcome α × Machine → List Event
  | (.done _, after) | (.failed _, after) => [.ran found after.vault]
  | (.crashed _, _) | (.endless, _) => []

/-- The values that were yielded, in order. -/
def yields (events : List Event) : List Value :=
  events.filterMap value?

/-- The events that remain visible when the innermost activation is gone. -/
def outside (events : List Event) : List Event :=
  events.filter (·.value?.isNone)

@[simp] theorem yields_nil : yields [] = [] := rfl

@[simp] theorem yields_append (first second : List Event) :
    yields (first ++ second) = yields first ++ yields second :=
  List.filterMap_append

theorem mem_ofRun {α : Type} {found : Vault} {run : Outcome α × Machine} {event : Event} :
    event ∈ ofRun found run ↔ run.1.Returned ∧ event = .ran found run.2.vault := by
  obtain ⟨outcome, after⟩ := run
  cases outcome with
  | done value => simp [ofRun, Outcome.Returned.done]
  | failed diagnostic => simp [ofRun, Outcome.Returned.failed]
  | crashed crash => exact ⟨nofun, fun ended => nomatch ended.1⟩
  | endless => exact ⟨nofun, fun ended => nomatch ended.1⟩

@[simp] theorem yields_ofRun {α : Type} (found : Vault) (run : Outcome α × Machine) :
    yields (ofRun found run) = [] := by
  rw [yields, List.filterMap_eq_nil_iff]
  intro event member
  obtain ⟨_, rfl⟩ := mem_ofRun.1 member
  rfl

@[simp] theorem yields_outside (events : List Event) : yields (outside events) = [] := by
  rw [yields, List.filterMap_eq_nil_iff]
  intro event member
  exact Option.isNone_iff_eq_none.1 (List.mem_filter.1 member).2

end Event

/-- The innermost activation has collected some values, the oldest first. -/
def Machine.Collects (before : Machine) (values : List Value) (after : Machine) : Prop :=
  after.activations = before.activations.modifyHead (values.reverse ++ ·)

namespace Machine.Collects

variable {before middle after : Machine} {values later : List Value}

theorem of_eq (same : after.activations = before.activations) : before.Collects [] after := by
  rw [Collects, same]
  cases before.activations <;> rfl

theorem refl (machine : Machine) : machine.Collects [] machine :=
  of_eq rfl

theorem trans (first : before.Collects values middle) (second : middle.Collects later after) :
    before.Collects (values ++ later) after := by
  rw [Collects, second, first, List.modifyHead_modifyHead]
  congr 1
  funext collected
  simp

/-- Only the activations count. -/
theorem congr {opened final : Machine} (collects : opened.Collects values middle)
    (start : opened.activations = before.activations)
    (ending : final.activations = middle.activations) : before.Collects values final := by
  rw [Collects, ending, collects, start]

/-- An activation that has collected nothing before holds just these values. -/
theorem activations_of_nil {outer : List (List Value)} (collects : before.Collects values after)
    (new : before.activations = [] :: outer) : after.activations = values.reverse :: outer := by
  rw [collects, new, List.modifyHead_cons, List.append_nil]

end Machine.Collects

namespace Eval

variable {α β : Type}

/-- A computation that comes to its own end has left the activations alone. -/
def Quiet (computation : Eval α) : Prop :=
  ∀ context machine, (computation context machine).1.Returned →
    (computation context machine).2.activations = machine.activations

theorem Balances.quiet {computation : Eval α} (balances : computation.Balances .expression) :
    computation.Quiet :=
  fun context machine returned => (balances context machine returned).activations

theorem quiet_onVault (operation : Run Vault α) : (Eval.onVault operation).Quiet :=
  fun _ _ _ => rfl

theorem quiet_onVaultAt (span : Span) (operation : Run Vault α) :
    (Eval.onVaultAt span operation).Quiet := by
  intro context machine _
  unfold Eval.onVaultAt
  split
  · next ran => exact (congrArg (·.2.activations) ran).symm
  · rfl

theorem quiet_update {change : Machine → Machine}
    (same : ∀ machine : Machine, (change machine).activations = machine.activations) :
    (Eval.update change).Quiet :=
  fun _ machine _ => same machine

/-- What happens in the course of a computation, for each state it starts in. -/
structure Course (computation : Eval α) where
  widens : computation.Widens
  events : Context → Machine → List Event
  collects : ∀ context machine, (computation context machine).1.Returned →
    machine.Collects (Event.yields (events context machine)) (computation context machine).2

namespace Course

/-- Nothing happens. -/
def quiet {computation : Eval α} (widens : computation.Widens) (quiet : computation.Quiet) :
    Course computation where
  widens := widens
  events _ _ := []
  collects context machine returned := .of_eq (quiet context machine returned)

def result (value : α) : Course (pure value : Eval α) :=
  .quiet (.result value) fun _ _ _ => rfl

def failAt (span : Span) (kind : DiagnosticKind) (message : String) :
    Course (Eval.failAt span kind message : Eval α) :=
  .quiet (.of_vault fun _ _ => rfl) fun _ _ _ => rfl

def endless : Course (Eval.endless : Eval α) :=
  .quiet (.of_vault fun _ _ => rfl) fun _ _ _ => rfl

def machine : Course Eval.machine :=
  .quiet (.of_vault fun _ _ => rfl) fun _ _ _ => rfl

def origin : Course Eval.origin :=
  .quiet (.of_vault fun _ _ => rfl) fun _ _ _ => rfl

def onVault {operation : Run Vault α} (widens : operation.Widens) :
    Course (Eval.onVault operation) :=
  .quiet (.onVault widens) (quiet_onVault operation)

def onVaultAt (span : Span) {operation : Run Vault α} (widens : operation.Widens) :
    Course (Eval.onVaultAt span operation) :=
  .quiet (.onVaultAt span widens) (quiet_onVaultAt span operation)

def queryAt (span : Span) (query : Vault → Except Diagnostic α) :
    Course (Eval.queryAt span query) :=
  .quiet (.queryAt span query) (Balances.queryAt .expression span query).quiet

def update {change : Machine → Machine}
    (vault : ∀ machine : Machine, (change machine).vault = machine.vault)
    (same : ∀ machine : Machine, (change machine).activations = machine.activations) :
    Course (Eval.update change) :=
  .quiet (.update vault) (quiet_update same)

/-- A value is yielded. -/
def yielding (value : Value) : Course (Eval.yielding value) where
  widens := .update fun _ => rfl
  events _ _ := [.yielded value]
  collects _ _ _ := rfl

/-- A computation that belongs to a call of a routine. -/
def calling (native : Native) {computation : Eval α} (course : Course computation) :
    Course computation where
  widens := course.widens
  events context machine := .called native :: course.events context machine
  collects := course.collects

/-- A computation that is run as a whole. -/
def recording {computation : Eval α} (course : Course computation) : Course computation where
  widens := course.widens
  events context machine :=
    course.events context machine ++ Event.ofRun machine.vault (computation context machine)
  collects context machine returned := by
    rw [Event.yields_append, Event.yields_ofRun, List.append_nil]
    exact course.collects context machine returned

/-- What follows a result happens after it. -/
def bind {first : Eval α} {next : α → Eval β} (course : Course first)
    (following : ∀ value, Course (next value)) : Course (first >>= next) where
  widens := .bind course.widens fun value => (following value).widens
  events context machine := course.events context machine ++
    match first context machine with
    | (.done value, middle) => (following value).events context middle
    | _ => []
  collects context machine returned := by
    have collects := course.collects context machine
    rw [bind_apply] at returned ⊢
    rw [Event.yields_append]
    generalize first context machine = ran at collects returned ⊢
    obtain ⟨outcome, middle⟩ := ran
    cases outcome with
    | done value =>
        exact (collects (.done _)).trans ((following value).collects context middle returned)
    | failed diagnostic =>
        rw [Event.yields_nil, List.append_nil]
        exact collects (.failed _)
    | crashed crash => cases returned
    | endless => cases returned

def ite (condition : Prop) [Decidable condition] {first second : Eval α} (onTrue : Course first)
    (onFalse : Course second) : Course (if condition then first else second) where
  widens := by
    split
    · exact onTrue.widens
    · exact onFalse.widens
  events context machine :=
    if condition then onTrue.events context machine else onFalse.events context machine
  collects context machine := by
    split
    · exact onTrue.collects context machine
    · exact onFalse.collects context machine

def within (origin : Origin) {body : Eval α} (course : Course body) :
    Course (Eval.within origin body) where
  widens context := course.widens { context with origin }
  events context := course.events { context with origin }
  collects context := course.collects { context with origin }

/-! ## Brackets -/

def ensuring {body : Eval α} {atEnd : Eval Unit} (course : Course body)
    (widens : atEnd.Widens) (unfailing : atEnd.Unfailing) (quiet : atEnd.Quiet) :
    Course (Eval.ensuring body atEnd) where
  widens := course.widens.ensuring widens
  events := course.events
  collects context machine returned := by
    obtain ⟨bodyReturned, ended⟩ := ensuring_of_returned unfailing returned
    have same := quiet context (body context machine).2
    rw [ended] at same
    exact (course.collects context machine bodyReturned).congr rfl (same (.done _))

def followedBy {body : Eval α} {atEnd : Eval Unit} (course : Course body)
    (widens : atEnd.Widens) (unfailing : atEnd.Unfailing) (quiet : atEnd.Quiet) :
    Course (Eval.followedBy body atEnd) where
  widens := course.widens.followedBy widens
  events := course.events
  collects context machine returned := by
    obtain ⟨bodyReturned, ended⟩ := followedBy_of_returned unfailing returned
    have same := quiet context (body context machine).2
    rw [ended] at same
    exact (course.collects context machine bodyReturned).congr rfl (same (.done _))

/-- At the end something is undone that has nothing to do with activations. -/
def beside {body : Eval α} {undo : Machine → Machine} (course : Course body)
    (vault : ∀ machine : Machine, (undo machine).vault = machine.vault)
    (same : ∀ machine : Machine, (undo machine).activations = machine.activations) :
    Course (Eval.ensuring body (Eval.update undo)) :=
  course.ensuring (.update vault) (.update undo) (quiet_update same)

def deeper (span : Span) {body : Eval α} (course : Course body) :
    Course (Eval.deeper span body) where
  widens := course.widens.deeper span
  events context machine :=
    if context.config.maxDepth < machine.depth + 1 then []
    else course.events context { machine with depth := machine.depth + 1 }
  collects context machine returned := by
    unfold Eval.deeper at returned ⊢
    split at returned
    case isTrue exceeded =>
      rw [if_pos exceeded, if_pos exceeded]
      exact .refl machine
    case isFalse allowed =>
      rw [if_neg allowed, if_neg allowed]
      exact (course.beside (fun _ => by rfl) fun _ => by rfl).collects context _ returned

def inFile (file : SourceFile) {body : Eval α} (course : Course body) :
    Course (Eval.inFile file body) :=
  (update (fun _ => by rfl) fun _ => by rfl).bind fun _ =>
    course.beside (fun _ => by rfl) fun _ => by rfl

def inBlock {body : Eval α} (course : Course body) : Course (Eval.inBlock body) :=
  recording <| (onVault (Vault.widens_enter .block)).bind fun _ =>
    course.ensuring (.onVault (Vault.widens_leave .block))
      (.onVault (Vault.unfailing_leave .block)) (quiet_onVault _)

def inScope (span : Span) (handle : Handle) {body : Eval α} (course : Course body) :
    Course (Evaluator.inScope span handle body) :=
  (onVaultAt span (Vault.widens_enterNamed handle)).bind fun _ =>
    course.ensuring (.onVault Vault.widens_exitNamed) (.onVault Vault.unfailing_exitNamed)
      (quiet_onVault _)

def defineMethods (methods : List (String × Native)) :
    Course (Evaluator.defineMethods methods) :=
  .quiet (.defineMethods methods) (Balances.defineMethods .expression methods).quiet

def inBox (value : Value) {body : Handle → Eval α} (course : ∀ box, Course (body box)) :
    Course (Evaluator.inBox value body) :=
  (onVault (Vault.widens_enter .boxed)).bind fun box =>
    (onVault (Vault.widens_define Native.boxedValue value)).bind fun _ =>
      (defineMethods _).bind fun _ =>
        (course box).ensuring (.onVault (Vault.widens_leave .boxed))
          (.onVault (Vault.unfailing_leave .boxed)) (quiet_onVault _)

def inDeclaration (name : String) {body : Eval α} (course : Course body) :
    Course (Eval.inDeclaration name body) :=
  (onVault (Vault.widens_declare name)).bind fun handle =>
    course.ensuring (.onVault (Vault.widens_endDeclaration handle name))
      (.onVault (Vault.unfailing_endDeclaration handle name)) (quiet_onVault _)

/-- The values that the body yields are gone with its activation. -/
def activated {body : Eval α} (course : Course body) : Course (Evaluator.activated body) where
  widens := course.widens.activated
  events context machine := Event.outside
    (course.events context { machine with activations := [] :: machine.activations })
  collects context machine returned := by
    unfold Evaluator.activated at returned ⊢
    rw [update_bind_apply] at returned ⊢
    obtain ⟨bodyReturned, ended⟩ := ensuring_of_returned (.update _) returned
    have collects := course.collects context _ bodyReturned
    have dropped := congrArg (·.2.activations) ended
    rw [Event.yields_outside]
    refine .of_eq (dropped.symm.trans ?_)
    exact congrArg List.tail collects

end Course

end Eval

end ScopeScript
